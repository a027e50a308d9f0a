import Mathlib.Algebra.BigOperators.Fin
import Unikraft.Lib.Lists
import Unikraft.Lib.Runs

/-!
# Pending signals

A process and each of its threads have a signal queue: a list of records for each signal number, and a set of bits
that says which signals are pending. Signals are numbered from 0, and records by allocation. `none` is an access with
an invalid signal number or a failed assertion. `Moves` says of a call that it keeps a process consistent and loses no
record but those that it returns. Two kinds of sends break this: a signal for a thread goes into the list of the
thread and into the bits of the process; and the record of a standard signal that is already pending is forgotten.
-/

namespace Unikraft.Process

abbrev Signum := Fin 64

def Signum.ofInt (signum : Int) : Option Signum :=
  if h : 0 < signum ∧ signum ≤ 64 then some ⟨(signum - 1).toNat, by omega⟩ else none

def SIGRTMIN : Nat := 35
def SIGCONT : Int := 18
def SIGSTOP : Int := 19

def Signum.standard (n : Signum) : Bool := decide (n.val + 1 < SIGRTMIN)

structure Siginfo where
  signo : Int
  code : Int
  pid : Int
  uid : Int
  value : Int

def SI_USER : Int := 0

def setSiginfoKill (signum getpid : Int) : Siginfo := ⟨signum, SI_USER, getpid, 0, 0⟩

def setSiginfoSigqueue (signum : Int) (usr : Siginfo) : Siginfo := { usr with signo := signum }

structure UkSignal where
  id : Nat
  siginfo : Siginfo

structure SignalQueue where
  pending : BitVec 64
  list : Signum → List UkSignal

namespace SignalQueue

variable (q : SignalQueue) (n : Signum)

def empty : SignalQueue := ⟨0, fun _ => []⟩

def isPending : Bool := q.pending.getLsbD n

def setPending : SignalQueue := { q with pending := q.pending ||| BitVec.twoPow 64 n }

def resetPending : SignalQueue := { q with pending := q.pending &&& ~~~ BitVec.twoPow 64 n }

def setList (l : List UkSignal) : SignalQueue := { q with list := Function.update q.list n l }

end SignalQueue

structure PosixThread where
  tid : Int
  blocked : Bool
  deliverSemaphore : Nat
  sigqueue : SignalQueue

structure PosixProcess where
  pid : Int
  queuedCount : Nat
  queuedMax : Nat
  sigqueue : SignalQueue
  /-- `pprocess_signal_should_drop`: the action is to ignore the signal, and no signal file monitors it. -/
  shouldDrop : Signum → Bool
  threads : List PosixThread

namespace PosixProcess

variable (p : PosixProcess)

def queue? : Option Nat → Option SignalQueue
  | none => some p.sigqueue
  | some t => p.threads[t]?.map PosixThread.sigqueue

def setQueue : Option Nat → SignalQueue → PosixProcess
  | none, q => { p with sigqueue := q }
  | some t, q => { p with threads := p.threads.modify t fun th => { th with sigqueue := q } }

end PosixProcess

inductive Errno
  | EAGAIN
  | EINVAL
  | ESRCH
  deriving DecidableEq

variable (pproc : PosixProcess) (pthread : Option Nat)

/-- `pprocess_signal_enqueue`. The signal number is not checked. -/
def pprocessSignalEnqueue (sig : UkSignal) : Option (Except Errno PosixProcess) :=
  if pproc.queuedMax ≤ pproc.queuedCount then some (.error .EAGAIN)
  else
    match Signum.ofInt sig.siginfo.signo, pproc.queue? pthread with
    | some n, some q =>
      if n.standard && q.isPending n then some (.ok pproc)
      else
        let pproc := pproc.setQueue pthread (q.setList n (q.list n ++ [sig]))
        -- For a thread as for the process, the bit is set in the queue of the process.
        some (.ok { pproc with sigqueue := pproc.sigqueue.setPending n, queuedCount := pproc.queuedCount + 1 })
    | _, _ => none

def pprocessSignalDequeue (n : Signum) : Option (UkSignal × PosixProcess) :=
  match pproc.queue? pthread with
  | none => none
  | some q =>
    match q.list n with
    | [] => none
    | sig :: l =>
      let q := q.setList n l
      let q := if l = [] then q.resetPending n else q
      let pproc := pproc.setQueue pthread q
      some (sig, { pproc with queuedCount := pproc.queuedCount - 1 })

/-- The loop that dequeues and frees until the list is empty: the process, and the records that are freed. -/
def dequeueLoop (pthread : Option Nat) (n : Signum) : Nat → PosixProcess → PosixProcess × List Nat
  | 0, pproc => (pproc, [])
  | fuel + 1, pproc =>
    match pprocessSignalDequeue pproc pthread n with
    | none => (pproc, [])
    | some (sig, pproc) =>
      let r := dequeueLoop pthread n fuel pproc
      (r.1, sig.id :: r.2)

def dequeueAll (n : Signum) : PosixProcess × List Nat :=
  dequeueLoop pthread n (((pproc.queue? pthread).elim 0 fun q => (q.list n).length) + 1) pproc

def clearQueue (n : Signum) (r : PosixProcess × List Nat) (pthread : Option Nat) : PosixProcess × List Nat :=
  if (r.1.queue? pthread).any fun q => q.isPending n then
    let r' := dequeueAll r.1 pthread n
    (r'.1, r.2 ++ r'.2)
  else r

def pprocessSignalClearPending (proc : PosixProcess) (n : Signum) : PosixProcess × List Nat :=
  ((List.range proc.threads.length).map some).foldl (clearQueue n) (clearQueue n (proc, []) none)

def freeSignals (t : Nat) (r : PosixProcess × List Nat) (n : Signum) : PosixProcess × List Nat :=
  let r' := dequeueAll r.1 (some t) n
  (r'.1, r.2 ++ r'.2)

def pprocessSignalTdescFree (t : Nat) : PosixProcess × List Nat :=
  (List.finRange 64).foldl (freeSignals t) (pproc, [])

/-- `pprocess_release_pthread`: the signals of the thread are freed, and it leaves the list of threads. -/
def pprocessReleasePthread (t : Nat) : PosixProcess × List Nat :=
  let r := pprocessSignalTdescFree pproc t
  ({ r.1 with threads := r.1.threads.eraseIdx t }, r.2)

structure State where
  processes : List PosixProcess
  tidmapSize : Nat
  allocated : Nat
  held : List Nat
  freed : List Nat
  /-- An assertion has failed or memory behind an array was accessed. -/
  fault : Bool

variable (s : State)

/-- `pprocess_signal_send` and the part of `pprocess_signal_thread_do` after the lookup: allocates a record and queues
it. -/
def queueSignal (i : Nat) (pproc : PosixProcess) (pthread : Option Nat) (info : Siginfo) (mem : Bool) :
    State × Except Errno Unit :=
  if mem then
    let id := s.allocated
    let s := { s with allocated := id + 1 }
    match pprocessSignalEnqueue pproc pthread ⟨id, info⟩ with
    | none => ({ s with fault := true }, .ok ())
    | some (.error e) => ({ s with freed := id :: s.freed }, .error e)
    | some (.ok pproc) => ({ s with processes := s.processes.set i pproc }, .ok ())
  else (s, .error .EAGAIN)

def siginfoOf (signum : Int) (siginfo : Option Siginfo) (getpid : Int) : Siginfo :=
  siginfo.elim (setSiginfoKill signum getpid) (setSiginfoSigqueue signum)

def signalEach (info : Siginfo) (n : Signum) (mem : Nat → Bool) : List Nat → State → State × Except Errno Unit
  | [], s => (s, .ok ())
  | i :: is, s =>
    match s.processes[i]? with
    | none => signalEach info n mem is s
    | some pproc =>
      if pproc.shouldDrop n then signalEach info n mem is s
      else
        match queueSignal s i pproc none info (mem i) with
        | (s, .error e) => (s, .error e)
        | (s, .ok _) => signalEach info n mem is s

def PosixThread.wake (t : PosixThread) : PosixThread :=
  if t.blocked then { t with deliverSemaphore := t.deliverSemaphore + 1 } else t

def PosixProcess.wakeAll (p : PosixProcess) : PosixProcess := { p with threads := p.threads.map PosixThread.wake }

def PosixProcess.wakeThread (t : Nat) (p : PosixProcess) : PosixProcess :=
  { p with threads := p.threads.modify t PosixThread.wake }

/-- `pprocess_signal_process_do`; `mem` says for which processes there is memory for a record. -/
def pprocessSignalProcessDo (pid signum : Int) (siginfo : Option Siginfo) (getpid : Int) (mem : Nat → Bool) :
    State × Except Errno Unit :=
  if signum ≠ 0 ∧ Signum.ofInt signum = none then (s, .error .EINVAL)
  else if signum = SIGSTOP ∨ signum = SIGCONT then (s, .ok ())
  else if pid = 0 ∨ pid < -1 ∨ pid = -1 then
    match Signum.ofInt signum with
    -- The signal 0 has neither an action nor a list.
    | none => if s.processes = [] then (s, .ok ()) else ({ s with fault := true }, .ok ())
    | some n => signalEach (siginfoOf signum siginfo getpid) n mem (List.range s.processes.length) s
  else if s.tidmapSize ≤ pid then ({ s with fault := true }, .ok ())
  else
    match s.processes.findIdx? (fun p => p.pid == pid) with
    | none => (s, .error .ESRCH)
    | some i =>
      match s.processes[i]?, Signum.ofInt signum with
      | some pproc, some n =>
        if pproc.shouldDrop n then (s, .ok ())
        else
          match queueSignal s i pproc none (siginfoOf signum siginfo getpid) (mem i) with
          | (s, .error e) => (s, .error e)
          | (s, .ok _) => ({ s with processes := s.processes.modify i PosixProcess.wakeAll }, .ok ())
      | _, _ => (s, .ok ())

def State.tid2pthread (tid : Int) : Option (Nat × Nat) :=
  match s.processes.findIdx? fun p => p.threads.any fun t => t.tid == tid with
  | none => none
  | some i => (s.processes[i]?.bind fun p => p.threads.findIdx? fun t => t.tid == tid).map fun t => (i, t)

def pprocessSignalThreadDo (tid signum : Int) (siginfo : Option Siginfo) (getpid : Int) (mem : Bool) :
    State × Except Errno Unit :=
  match s.tid2pthread tid with
  | none => (s, .error .EINVAL)
  | some (i, t) =>
    match s.processes[i]? with
    | none => (s, .error .EINVAL)
    | some pproc =>
      match queueSignal s i pproc (some t) (siginfoOf signum siginfo getpid) mem with
      | (s, .error e) => (s, .error e)
      | (s, .ok _) => ({ s with processes := s.processes.modify i (PosixProcess.wakeThread t) }, .ok ())

inductive Op
  | sendProcess (pid signum : Int) (siginfo : Option Siginfo) (getpid : Int) (mem : Nat → Bool)
  | sendThread (tid signum : Int) (siginfo : Option Siginfo) (getpid : Int) (mem : Bool)
  | dequeue (proc : Nat) (pthread : Option Nat) (n : Signum)
  | free (id : Nat)
  | clearPending (proc : Nat) (n : Signum)
  | threadExit (proc t : Nat)
  | setAction (proc : Nat) (drop : Signum → Bool)
  | setBlocked (proc t : Nat) (blocked : Bool)

def State.update (i : Nat) (f : PosixProcess → PosixProcess × List Nat) : State :=
  match s.processes[i]? with
  | none => s
  | some p => { s with processes := s.processes.set i (f p).1, freed := (f p).2 ++ s.freed }

def exec : Op → State × Except Errno Unit
  | .sendProcess pid signum siginfo getpid mem => pprocessSignalProcessDo s pid signum siginfo getpid mem
  | .sendThread tid signum siginfo getpid mem => pprocessSignalThreadDo s tid signum siginfo getpid mem
  | .dequeue i pthread n =>
    match s.processes[i]?.bind fun p => pprocessSignalDequeue p pthread n with
    | none => (s, .ok ())
    | some (sig, p) => ({ s with processes := s.processes.set i p, held := sig.id :: s.held }, .ok ())
  | .free id => (if id ∈ s.held then { s with held := s.held.erase id, freed := id :: s.freed } else s, .ok ())
  | .clearPending i n => (s.update i fun p => pprocessSignalClearPending p n, .ok ())
  | .threadExit i t => (s.update i fun p => pprocessReleasePthread p t, .ok ())
  | .setAction i drop => (s.update i fun p => ({ p with shouldDrop := drop }, []), .ok ())
  | .setBlocked i t b =>
    (s.update i fun p => ({ p with threads := p.threads.modify t fun th => { th with blocked := b } }, []), .ok ())

def step (op : Op) : State := (exec s op).1

section
open Finset List PosixProcess PosixThread SignalQueue Option

namespace SignalQueue

/-- The bit of a signal is set exactly if there is a record of it, and there is at most one of a standard signal. -/
structure Consistent (q : SignalQueue) : Prop where
  pending : ∀ n, q.isPending n = true ↔ q.list n ≠ []
  standard : ∀ n, n.standard = true → (q.list n).length ≤ 1

def size (q : SignalQueue) : Nat := ∑ n, (q.list n).length

def holds (q : SignalQueue) (id : Nat) : Prop := ∃ n, ∃ sig ∈ q.list n, sig.id = id

variable {q : SignalQueue} {n m : Signum} {l : List UkSignal} {sig : UkSignal}

private theorem isPending_setPending : (q.setPending n).isPending m = (q.isPending m || decide (m = n)) := by
  unfold setPending isPending
  rw [BitVec.getLsbD_or, BitVec.getLsbD_twoPow]
  simp only [n.isLt, decide_true, Bool.true_and, Fin.ext_iff, eq_comm]

private theorem isPending_resetPending : (q.resetPending n).isPending m = (q.isPending m && decide (m ≠ n)) := by
  unfold resetPending isPending
  simp [Fin.ext_iff, eq_comm]

private theorem list_setList : (q.setList n l).list m = if m = n then l else q.list m := by
  unfold setList
  simp only [Function.update_apply]

private theorem isPending_setList : (q.setList n l).isPending m = q.isPending m := rfl

private theorem size_setList : (q.setList n l).size + (q.list n).length = q.size + l.length := by
  have hlen : (fun m => ((q.setList n l).list m).length) =
    Function.update (fun m => (q.list m).length) n l.length := by
    funext m
    rw [list_setList, Function.update_apply]
    split <;> rfl
  unfold size
  rw [hlen, Finset.sum_update_of_mem (mem_univ n), ← Finset.add_sum_erase univ _ (mem_univ n),
      Finset.sdiff_singleton_eq_erase]
  omega

def pop (q : SignalQueue) (n : Signum) (l : List UkSignal) : SignalQueue :=
  if l = [] then (q.setList n l).resetPending n else q.setList n l

private theorem list_pop : (q.pop n l).list m = if m = n then l else q.list m := by
  unfold pop
  split <;> exact list_setList

private theorem size_pop (h : q.list n = sig :: l) : (q.pop n l).size + 1 = q.size := by
  have hlist : (q.pop n l).size = (q.setList n l).size := by
    unfold pop
    split <;> rfl
  have := size_setList (q := q) (n := n) (l := l)
  rw [h, length_cons] at this
  omega

private theorem Consistent.pop (h : q.Consistent) (hl : q.list n = sig :: l) : (q.pop n l).Consistent := by
  have hn : q.isPending n = true := (h.pending n).2 (by rw [hl]; exact cons_ne_nil _ _)
  constructor
  · intro m
    rw [list_pop]
    unfold SignalQueue.pop
    split
    next hnil =>
      rw [isPending_resetPending, isPending_setList]
      by_cases hm : m = n
      · simp [hm, hnil]
      · simp [hm, h.pending m]
    next hnil =>
      rw [isPending_setList]
      by_cases hm : m = n
      · simp [hm, hnil, hn]
      · simp [hm, h.pending m]
  · intro m hm
    rw [list_pop]
    split
    · next heq =>
      have := h.standard n (heq ▸ hm)
      rw [hl, length_cons] at this
      omega
    · exact h.standard m hm

private theorem holds_pop (hl : q.list n = sig :: l) {id : Nat} (h : q.holds id) :
    (q.pop n l).holds id ∨ id = sig.id := by
  obtain ⟨m, r, hr, rfl⟩ := h
  by_cases hm : m = n
  · subst hm
    rw [hl, List.mem_cons] at hr
    rcases hr with rfl | hr
    · exact .inr rfl
    · exact .inl ⟨m, r, by rw [list_pop, if_pos rfl]; exact hr, rfl⟩
  · exact .inl ⟨m, r, by rw [list_pop, if_neg hm]; exact hr, rfl⟩

private theorem Consistent.push (h : q.Consistent) (hn : (n.standard && q.isPending n) = false) :
    ((q.setList n (q.list n ++ [sig])).setPending n).Consistent := by
  constructor
  · intro m
    rw [isPending_setPending, isPending_setList]
    change _ ↔ (q.setList n (q.list n ++ [sig])).list m ≠ []
    rw [list_setList]
    by_cases hm : m = n
    · simp [hm]
    · simp [hm, h.pending m]
  · intro m hm
    change ((q.setList n (q.list n ++ [sig])).list m).length ≤ 1
    rw [list_setList]
    split
    · next heq =>
      -- No bit, no record.
      subst heq
      rw [hm, Bool.true_and] at hn
      have hnil : q.list m = [] := by
        by_contra hne
        rw [(h.pending m).2 hne] at hn
        cases hn
      simp [hnil]
    · exact h.standard m hm

end SignalQueue

namespace PosixProcess

variable (p : PosixProcess)

def queues : List SignalQueue := p.sigqueue :: p.threads.map PosixThread.sigqueue

def total : Nat := (p.queues.map size).sum

structure Consistent (p : PosixProcess) : Prop where
  queues : ∀ q ∈ p.queues, q.Consistent
  count : p.queuedCount = p.total

def holds (id : Nat) : Prop := ∃ q ∈ p.queues, q.holds id

end PosixProcess

section
variable {p p' p'' : PosixProcess} {th : Option Nat} {q q' : SignalQueue} {n : Signum} {ids ids' : List Nat}
    {sig : UkSignal}

private theorem queues_split (h : p.queue? th = some q) :
    ∃ A B, p.queues = A ++ q :: B ∧ ∀ q', (p.setQueue th q').queues = A ++ q' :: B := by
  cases th with
  | none =>
    cases h
    exact ⟨[], p.threads.map PosixThread.sigqueue, rfl, fun _ => rfl⟩
  | some t =>
    obtain ⟨th, hth, rfl⟩ := map_eq_some_iff.1 h
    obtain ⟨A, B, heq, rfl⟩ := Lists.exists_eq_append hth
    refine ⟨p.sigqueue :: A.map PosixThread.sigqueue, B.map PosixThread.sigqueue, by simp [PosixProcess.queues, heq],
        fun q' => ?_⟩
    simp only [PosixProcess.queues, PosixProcess.setQueue, heq, Lists.modify_append_cons]
    simp

private theorem queue?_setQueue (h : p.queue? th = some q) : (p.setQueue th q').queue? th = some q' := by
  cases th with
  | none => rfl
  | some t =>
    obtain ⟨th, hth, rfl⟩ := map_eq_some_iff.1 h
    simp only [queue?, setQueue, List.getElem?_modify, hth]
    rfl

private theorem queuedCount_setQueue : (p.setQueue th q').queuedCount = p.queuedCount := by
  cases th <;> rfl

/-- The call keeps the process consistent and loses only the records `ids`. -/
structure Moves (p p' : PosixProcess) (ids : List Nat) : Prop where
  consistent : p.Consistent → p'.Consistent
  holds : ∀ id, p.holds id → p'.holds id ∨ id ∈ ids

private theorem Moves.refl (p : PosixProcess) : Moves p p [] := ⟨id, fun _ => .inl⟩

private theorem Moves.trans (h : Moves p p' ids) (h' : Moves p' p'' ids') : Moves p p'' (ids ++ ids') := by
  refine ⟨h'.consistent ∘ h.consistent, fun id hid => ?_⟩
  rw [mem_append]
  rcases h.holds id hid with hid | hid
  · rcases h'.holds id hid with hid | hid
    · exact .inl hid
    · exact .inr (.inr hid)
  · exact .inr (.inl hid)

private theorem moves_replace {A B Q : List SignalQueue} (hold : p.queues = A ++ q :: B)
    (hnew : p'.queues = A ++ Q ++ B) (hQ : q.Consistent → ∀ r ∈ Q, r.Consistent)
    (hcount : q.size ≤ p.queuedCount → p'.queuedCount + q.size = p.queuedCount + (Q.map size).sum)
    (hholds : ∀ id, q.holds id → (∃ r ∈ Q, r.holds id) ∨ id ∈ ids) : Moves p p' ids := by
  constructor
  · intro hp
    constructor
    · intro r hr
      rw [hnew, mem_append, mem_append] at hr
      rcases hr with (hr | hr) | hr
      · exact hp.queues r (by simp [hold, hr])
      · exact hQ (hp.queues q (by simp [hold])) r hr
      · exact hp.queues r (by simp [hold, hr])
    · have hc := hp.count
      rw [total, hold] at hc
      rw [total, hnew]
      simp only [List.map_append, List.map_cons, List.sum_append, List.sum_cons] at hc ⊢
      omega
  · rintro id ⟨r, hr, hid⟩
    rw [hold, List.mem_append, List.mem_cons] at hr
    rcases hr with hr | rfl | hr
    · exact .inl ⟨r, by simp [hnew, hr], hid⟩
    · exact (hholds id hid).imp_left fun ⟨r', hr', hid'⟩ => ⟨r', by simp [hnew, hr'], hid'⟩
    · exact .inl ⟨r, by simp [hnew, hr], hid⟩

private theorem signalDequeue_some (h : pprocessSignalDequeue p th n = some (sig, p')) :
    ∃ q l, p.queue? th = some q ∧ q.list n = sig :: l ∧
    p' = { p.setQueue th (q.pop n l) with queuedCount := p.queuedCount - 1 } := by
  unfold pprocessSignalDequeue at h
  cases hq : p.queue? th with
  | none =>
    rw [hq] at h
    cases h
  | some q =>
    rw [hq] at h
    cases hl : q.list n with
    | nil => simp [hl] at h
    | cons r l =>
      simp only [hl, some.injEq, Prod.mk.injEq] at h
      obtain ⟨rfl, rfl⟩ := h
      refine ⟨q, l, rfl, hl, ?_⟩
      rw [queuedCount_setQueue]
      rfl

private theorem dequeue_moves (h : pprocessSignalDequeue p th n = some (sig, p')) : Moves p p' [sig.id] := by
  obtain ⟨q, l, hq, hl, rfl⟩ := signalDequeue_some h
  obtain ⟨A, B, hold, hnew⟩ := queues_split hq
  refine moves_replace (Q := [q.pop n l]) hold ((hnew _).trans (by simp)) (by simpa using fun hc => hc.pop hl) ?_ ?_
  · have := size_pop hl
    dsimp only
    rw [List.map_singleton, List.sum_singleton]
    omega
  · simpa using fun id hid => holds_pop hl hid

private theorem dequeueLoop_moves (fuel : Nat) : Moves p (dequeueLoop th n fuel p).1 (dequeueLoop th n fuel p).2 := by
  induction fuel generalizing p with
  | zero => exact Moves.refl p
  | succ fuel ih =>
    rw [dequeueLoop]
    cases hd : pprocessSignalDequeue p th n with
    | none => exact Moves.refl p
    | some r => exact (dequeue_moves hd).trans ih

private theorem dequeueLoop_list {fuel : Nat} (h : p.queue? th = some q) (hfuel : (q.list n).length < fuel) :
    ∃ q', (dequeueLoop th n fuel p).1.queue? th = some q' ∧ ∀ m, q'.list m = if m = n then [] else q.list m := by
  induction fuel generalizing p q with
  | zero => omega
  | succ fuel ih =>
    rw [dequeueLoop]
    cases hd : pprocessSignalDequeue p th n with
    | none =>
      refine ⟨q, h, fun m => ?_⟩
      split
      · next heq =>
        subst heq
        cases hl : q.list m with
        | nil => rfl
        | cons sig l => simp [pprocessSignalDequeue, h, hl] at hd
      · rfl
    | some r =>
      obtain ⟨sig, p'⟩ := r
      obtain ⟨q1, l, hq1, hl, rfl⟩ := signalDequeue_some hd
      obtain rfl : q = q1 := some.inj (h.symm.trans hq1)
      have hqueue : queue? { p.setQueue th (q.pop n l) with queuedCount := p.queuedCount - 1 } th =
        some (q.pop n l) := by
        have : (p.setQueue th (q.pop n l)).queue? th = some (q.pop n l) := queue?_setQueue h
        cases th <;> exact this
      rw [hl, length_cons] at hfuel
      obtain ⟨q', hq', hlist⟩ := ih hqueue (by rw [list_pop, if_pos rfl]; omega)
      refine ⟨q', hq', fun m => ?_⟩
      rw [hlist m, list_pop]
      split <;> rfl

variable {r : PosixProcess × List Nat} {t : Nat}

private theorem clearQueue_moves (h : Moves p r.1 r.2) : Moves p (clearQueue n r th).1 (clearQueue n r th).2 := by
  unfold clearQueue
  split
  · exact h.trans (dequeueLoop_moves _)
  · exact h

private theorem clearPending_moves :
    Moves p (pprocessSignalClearPending p n).1 (pprocessSignalClearPending p n).2 := by
  have hfold : ∀ (ths : List (Option Nat)) (r : PosixProcess × List Nat), Moves p r.1 r.2 →
      Moves p (ths.foldl (clearQueue n) r).1 (ths.foldl (clearQueue n) r).2 := by
    intro ths
    induction ths with
    | nil => exact fun _ h => h
    | cons th ths ih => exact fun r h => ih _ (clearQueue_moves h)
  exact hfold _ _ (clearQueue_moves (Moves.refl p))

private theorem freeSignals_moves (h : Moves p r.1 r.2) : Moves p (freeSignals t r n).1 (freeSignals t r n).2 :=
  h.trans (dequeueLoop_moves _)

private theorem freeSignals_foldl (ns : List Signum) (h : Moves p r.1 r.2) (hq : r.1.queue? (some t) = some q) :
    Moves p (ns.foldl (freeSignals t) r).1 (ns.foldl (freeSignals t) r).2 ∧
      ∃ q', (ns.foldl (freeSignals t) r).1.queue? (some t) = some q' ∧ ∀ m, q'.list m = if m ∈ ns then []
      else q.list m := by
  induction ns generalizing r q with
  | nil => exact ⟨h, q, hq, by simp⟩
  | cons n ns ih =>
    have hfuel : (q.list n).length < ((r.1.queue? (some t)).elim 0 fun q => (q.list n).length) + 1 := by
      rw [hq]
      exact Nat.lt_succ_self _
    obtain ⟨q1, hq1, hlist1⟩ := dequeueLoop_list hq hfuel
    obtain ⟨hm, q', hq', hlist⟩ := ih (freeSignals_moves h) hq1
    refine ⟨hm, q', hq', fun m => ?_⟩
    rw [hlist m, hlist1 m]
    by_cases hmn : m = n <;> simp [hmn]

private theorem eraseIdx_moves (hq : p.queue? (some t) = some q) (hempty : ∀ m, q.list m = []) :
    Moves p { p with threads := p.threads.eraseIdx t } [] := by
  obtain ⟨th, hth, rfl⟩ := map_eq_some_iff.1 hq
  obtain ⟨A, B, heq, rfl⟩ := Lists.exists_eq_append hth
  refine moves_replace (q := th.sigqueue) (A := p.sigqueue :: A.map PosixThread.sigqueue)
    (B := B.map PosixThread.sigqueue) (Q := []) ?_ ?_
    nofun ?_ ?_
  · simp [PosixProcess.queues, heq]
  · simp [PosixProcess.queues, heq, eraseIdx_append_of_length_le]
  · simp [size, hempty]
  · rintro id ⟨m, sig, hsig, -⟩
    rw [hempty m] at hsig
    cases hsig

private theorem releasePthread_moves (t : Nat) :
    Moves p (pprocessReleasePthread p t).1 (pprocessReleasePthread p t).2 := by
  unfold pprocessReleasePthread pprocessSignalTdescFree
  cases hq : p.queue? (some t) with
  | some q =>
    obtain ⟨hm, q', hq', hlist⟩ := freeSignals_foldl (r := (p, [])) (List.finRange 64) (Moves.refl p) hq
    have herase := eraseIdx_moves hq' fun m => by rw [hlist m, if_pos (mem_finRange m)]
    have := hm.trans herase
    rw [append_nil] at this
    exact this
  | none =>
    -- There is no such thread.
    have hnone : ∀ n, dequeueAll p (some t) n = (p, []) := by
      intro n
      simp only [dequeueAll, dequeueLoop, pprocessSignalDequeue, hq]
    have hfold : ∀ ns : List Signum, ns.foldl (freeSignals t) (p, []) = (p, []) := by
      intro ns
      induction ns with
      | nil => rfl
      | cons n ns ih =>
        rw [foldl_cons, freeSignals, hnone]
        exact ih
    rw [hfold]
    have hlen : p.threads.eraseIdx t = p.threads := by
      rw [queue?, map_eq_none_iff, List.getElem?_eq_none_iff] at hq
      exact eraseIdx_of_length_le hq
    dsimp only
    rw [hlen]
    exact Moves.refl p

private theorem moves_of_queues (h : p'.queues = p.queues) (hc : p'.queuedCount = p.queuedCount) : Moves p p' [] := by
  constructor
  · intro hp
    exact ⟨h ▸ hp.queues, by rw [hc, hp.count, total, total, h]⟩
  · rintro id ⟨r, hr, hid⟩
    exact .inl ⟨r, h.symm ▸ hr, hid⟩

private theorem map_sigqueue_modify {f : PosixThread → PosixThread} (hf : ∀ t, (f t).sigqueue = t.sigqueue)
    (l : List PosixThread) (i : Nat) :
    (l.modify i f).map PosixThread.sigqueue = l.map PosixThread.sigqueue := by
  induction l generalizing i with
  | nil => simp
  | cons t l ih =>
    cases i with
    | zero => simp [hf]
    | succ i => simp [ih]

private theorem sigqueue_wake (t : PosixThread) : t.wake.sigqueue = t.sigqueue := by
  unfold wake
  split <;> rfl

private theorem wakeAll_moves : Moves p p.wakeAll [] := by
  refine moves_of_queues ?_ rfl
  unfold PosixProcess.queues PosixProcess.wakeAll
  rw [List.map_map, show PosixThread.sigqueue ∘ PosixThread.wake = PosixThread.sigqueue from funext sigqueue_wake]

end

end

open List Runs SignalQueue State

namespace State

def placed (s : State) (id : Nat) : Prop := (∃ p ∈ s.processes, p.holds id) ∨ id ∈ s.held ∨ id ∈ s.freed

structure Consistent (s : State) : Prop where
  fault : s.fault = false
  processes : ∀ p ∈ s.processes, p.Consistent
  records : ∀ id < s.allocated, s.placed id

structure Started (s : State) : Prop where
  fault : s.fault = false
  count : ∀ p ∈ s.processes, p.queuedCount = 0
  queues : ∀ p ∈ s.processes, ∀ q ∈ p.queues, q = empty
  allocated : s.allocated = 0

end State

private theorem Started.consistent {s : State} (h : s.Started) : s.Consistent := by
  refine ⟨h.fault, fun p hp => ⟨fun q hq => ?_, ?_⟩, fun id hid => ?_⟩
  · rw [h.queues p hp q hq]
    exact ⟨by simp [isPending, empty], by simp [empty]⟩
  · have hsize : empty.size = 0 := by simp [size, empty]
    rw [h.count p hp, PosixProcess.total]
    refine (sum_eq_zero fun k hk => ?_).symm
    obtain ⟨q, hq, rfl⟩ := mem_map.1 hk
    rw [h.queues p hp q hq, hsize]
  · rw [h.allocated] at hid
    omega

section
variable {s s' : State} {p p' : PosixProcess} {i : Nat} {ids : List Nat} {n : Signum} {info : Siginfo} {mem : Bool}
  {f : PosixProcess → PosixProcess} {siginfo : Option Siginfo} {is : List Nat} {s0 : State}

private theorem State.Consistent.set (h : s.Consistent) (hi : s.processes[i]? = some p) (hm : Moves p p' ids)
    (hs' : s'.processes = s.processes.set i p') (hfault : s'.fault = s.fault)
    (hids : ∀ id ∈ ids, id ∈ s'.held ∨ id ∈ s'.freed)
    (hkeep : ∀ id, id ∈ s.held ∨ id ∈ s.freed → id ∈ s'.held ∨ id ∈ s'.freed)
    (hnew : ∀ id < s'.allocated, s.allocated ≤ id → s'.placed id) : s'.Consistent := by
  obtain ⟨A, B, heq, rfl⟩ := Lists.exists_eq_append hi
  have hset : s'.processes = A ++ p' :: B := by
    rw [hs', heq, set_append_right _ _ (Nat.le_refl _), Nat.sub_self, set_cons_zero]
  refine ⟨hfault.trans h.fault, fun r hr => ?_, fun id hid => ?_⟩
  · rw [hset, mem_append, mem_cons] at hr
    rcases hr with hr | rfl | hr
    · exact h.processes r (by simp [heq, hr])
    · exact hm.consistent (h.processes p (by simp [heq]))
    · exact h.processes r (by simp [heq, hr])
  · by_cases hlt : id < s.allocated
    · rcases h.records id hlt with ⟨r, hr, hid⟩ | hid
      · rw [heq, mem_append, mem_cons] at hr
        rcases hr with hr | rfl | hr
        · exact .inl ⟨r, by simp [hset, hr], hid⟩
        · rcases hm.holds id hid with hid | hid
          · exact .inl ⟨p', by simp [hset], hid⟩
          · exact .inr (hids id hid)
        · exact .inl ⟨r, by simp [hset, hr], hid⟩
      · exact .inr (hkeep id hid)
    · exact hnew id hid (Nat.le_of_not_lt hlt)

private theorem State.Consistent.update (h : s.Consistent) {f : PosixProcess → PosixProcess × List Nat}
    (hf : ∀ p, Moves p (f p).1 (f p).2) :
    (s.update i f).Consistent := by
  unfold State.update
  cases hi : s.processes[i]? with
  | none => exact h
  | some p =>
    refine h.set hi (hf p) rfl rfl (fun id hid => .inr (mem_append_left _ hid)) (fun id hid => ?_)
      fun id hid hle => ?_
    · exact hid.imp_right (mem_append_right _)
    · exact absurd hid (Nat.not_lt.2 hle)

private theorem State.Consistent.modify (h : s.Consistent) (hf : ∀ p, Moves p (f p) []) :
    Consistent { s with processes := s.processes.modify i f } := by
  cases hi : s.processes[i]? with
  | none =>
    rw [List.getElem?_eq_none_iff] at hi
    rw [modify_eq_self hi]
    exact h
  | some p =>
    have hset : s.processes.modify i f = s.processes.set i (f p) := by
      rw [modify_eq_set_getElem?, hi]
      rfl
    rw [hset]
    exact h.set hi (hf p) rfl rfl (fun id hid => absurd hid not_mem_nil) (fun id hid => hid)
      fun id hid hle => absurd hid (Nat.not_lt.2 hle)

private theorem enqueue_moves (sig : UkSignal) (hn : Signum.ofInt sig.siginfo.signo = some n)
    (hfull : p.queuedCount < p.queuedMax) (hfine : (n.standard && p.sigqueue.isPending n) = false) :
    ∃ p', pprocessSignalEnqueue p none sig = some (.ok p') ∧ Moves p p' [] ∧
      p'.holds sig.id ∧ p'.sigqueue.isPending n = true ∧ p'.shouldDrop = p.shouldDrop ∧
      ∀ m, p.sigqueue.isPending m = true → p'.sigqueue.isPending m = true := by
  refine ⟨{ p with
    sigqueue := (p.sigqueue.setList n (p.sigqueue.list n ++ [sig])).setPending n
    queuedCount := p.queuedCount + 1 }, ?_, ?_, ?_, ?_, rfl, ?_⟩
  · unfold pprocessSignalEnqueue
    rw [if_neg (Nat.not_le.2 hfull), hn]
    simp only [PosixProcess.queue?, hfine]
    rfl
  · refine moves_replace (A := []) (Q := [_]) rfl rfl (by simpa using fun hc => hc.push hfine) (fun _ => ?_) ?_
    · have hsize := size_setList (q := p.sigqueue) (n := n) (l := p.sigqueue.list n ++ [sig])
      rw [length_append, length_singleton] at hsize
      rw [map_singleton, sum_singleton]
      change _ = _ + (p.sigqueue.setList n (p.sigqueue.list n ++ [sig])).size
      dsimp only
      omega
    · rintro id ⟨m, r, hr, rfl⟩
      refine .inl ⟨_, mem_singleton_self _, m, r, ?_, rfl⟩
      change r ∈ (p.sigqueue.setList n (p.sigqueue.list n ++ [sig])).list m
      rw [list_setList]
      split
      · next heq => exact mem_append_left _ (heq ▸ hr)
      · exact hr
  · refine ⟨_, mem_cons_self, n, sig, ?_, rfl⟩
    change sig ∈ (p.sigqueue.setList n (p.sigqueue.list n ++ [sig])).list n
    rw [list_setList, if_pos rfl]
    simp
  · simp [isPending_setPending]
  · intro m hm
    simp [isPending_setPending, isPending_setList, hm]

/-- The send is refused, or the signal is not a standard one that is already pending. -/
def fineSend (p : PosixProcess) (n : Signum) (mem : Bool) : Bool :=
  !mem || decide (p.queuedMax ≤ p.queuedCount) || !(n.standard && p.sigqueue.isPending n)

private theorem State.Consistent.refused (h : s.Consistent) :
    Consistent { s with allocated := s.allocated + 1, freed := s.allocated :: s.freed } := by
  refine ⟨h.fault, h.processes, fun id hid => ?_⟩
  by_cases hlt : id < s.allocated
  · exact (h.records id hlt).imp_right fun hid => hid.imp_right (mem_cons_of_mem _)
  · have : id = s.allocated := by
      change id < s.allocated + 1 at hid
      omega
    exact .inr (.inr (this ▸ mem_cons_self))

/-- The processes stay consistent, and a signal that was sent without an error is pending. -/
theorem queueSignal_spec (h : s.Consistent) (hi : s.processes[i]? = some p) (hn : Signum.ofInt info.signo = some n)
    (hfine : fineSend p n mem = true) : (queueSignal s i p none info mem).1.Consistent ∧
      ((queueSignal s i p none info mem).2 ≠ .ok () ∨ ∃ p', (queueSignal s i p none info mem).1.processes =
        s.processes.set i p' ∧
        p'.sigqueue.isPending n = true ∧ p'.shouldDrop = p.shouldDrop ∧ mem = true ∧
        p.queuedCount < p.queuedMax) := by
  unfold queueSignal
  cases mem with
  | false => exact ⟨h, .inl nofun⟩
  | true =>
    by_cases hfull : p.queuedMax ≤ p.queuedCount
    · have hrefused : pprocessSignalEnqueue p none ⟨s.allocated, info⟩ = some (.error .EAGAIN) := by
        unfold pprocessSignalEnqueue
        rw [if_pos hfull]
      simp only [hrefused]
      exact ⟨h.refused, .inl nofun⟩
    · have hpend : (n.standard && p.sigqueue.isPending n) = false := by
        cases hb : n.standard && p.sigqueue.isPending n with
        | false => rfl
        | true =>
          rw [fineSend, decide_eq_false hfull, hb] at hfine
          cases hfine
      obtain ⟨p', hok, hm, hholds, hset, hdrop, -⟩ :=
        enqueue_moves ⟨s.allocated, info⟩ hn (Nat.lt_of_not_le hfull) hpend
      simp only [hok]
      refine ⟨?_, .inr ⟨p', rfl, hset, hdrop, trivial, Nat.lt_of_not_le hfull⟩⟩
      refine h.set hi hm rfl rfl (fun id hid => absurd hid not_mem_nil) (fun id hid => hid) fun id hid hle => ?_
      have heq : id = s.allocated := by
        change id < s.allocated + 1 at hid
        omega
      exact .inl ⟨p', mem_set (List.getElem?_eq_some_iff.1 hi).1 p', heq ▸ hholds⟩

/-- The condition for the processes `is`, in order up to the first that refuses the signal. -/
def fineEach (s : State) (n : Signum) (mem : Nat → Bool) : List Nat → Bool
  | [] => true
  | i :: is =>
    match s.processes[i]? with
    | none => fineEach s n mem is
    | some p =>
      if p.shouldDrop n then fineEach s n mem is
      else fineSend p n (mem i) && (!mem i || decide (p.queuedMax ≤ p.queuedCount) || fineEach s n mem is)

def State.pendingAt (s : State) (i : Nat) (n : Signum) : Prop :=
  ∃ p, s.processes[i]? = some p ∧ p.sigqueue.isPending n = true

/-- What sending to the processes `is` leads to from `s`, where these are as they were in `s₀`. -/
def Sent (s₀ s : State) (n : Signum) (is : List Nat) (r : State × Except Errno Unit) : Prop :=
  r.1.Consistent ∧ (r.2 = .ok () → (∀ i ∉ is, r.1.processes[i]? = s.processes[i]?) ∧
    ∀ i ∈ is, ∀ p, s₀.processes[i]? = some p → p.shouldDrop n = false → r.1.pendingAt i n)

private theorem Sent.skip {r : State × Except Errno Unit} (h : Sent s0 s n is r)
    (hi : ∀ p, s0.processes[i]? = some p → p.shouldDrop n = true) : Sent s0 s n (i :: is) r := by
  obtain ⟨hc, hok⟩ := h
  refine ⟨hc, fun hret => ⟨fun j hj => (hok hret).1 j fun hmem => hj (mem_cons_of_mem i hmem),
      fun j hj p hp hd => ?_⟩⟩
  rcases mem_cons.1 hj with rfl | hj
  · rw [hi p hp] at hd
    cases hd
  · exact (hok hret).2 j hj p hp hd

/-- By induction on the processes: a signal to a group goes to each of them. -/
theorem signalEach_spec {mem : Nat → Bool} (h : s.Consistent) (hn : Signum.ofInt info.signo = some n)
    (hnd : is.Nodup) (hsame : ∀ i ∈ is, s.processes[i]? = s0.processes[i]?) (hfine : fineEach s0 n mem is = true) :
    Sent s0 s n is (signalEach info n mem is s) := by
  induction is generalizing s with
  | nil => exact ⟨h, fun _ => ⟨fun _ _ => rfl, fun i hi => absurd hi not_mem_nil⟩⟩
  | cons i is ih =>
    obtain ⟨hni, hnd⟩ := nodup_cons.1 hnd
    have hsame' : ∀ j ∈ is, s.processes[j]? = s0.processes[j]? := fun j hj => hsame j (mem_cons_of_mem i hj)
    have hi := hsame i mem_cons_self
    rw [signalEach]
    cases hp : s.processes[i]? with
    | none =>
      rw [fineEach, ← hi, hp] at hfine
      refine (ih h hnd hsame' hfine).skip fun p hp' => ?_
      rw [← hi, hp] at hp'
      cases hp'
    | some p =>
      rw [fineEach, ← hi, hp] at hfine
      dsimp only at hfine ⊢
      by_cases hdrop : p.shouldDrop n = true
      · rw [if_pos hdrop] at hfine ⊢
        refine (ih h hnd hsame' hfine).skip fun p' hp' => ?_
        rw [← hi, hp] at hp'
        cases hp'
        exact hdrop
      · rw [if_neg hdrop, Bool.and_eq_true] at hfine
        rw [if_neg hdrop]
        obtain ⟨hcs, hret⟩ := queueSignal_spec h hp hn hfine.1
        generalize queueSignal s i p none info (mem i) = r at hcs hret
        obtain ⟨s', ret⟩ := r
        cases ret with
        | error e => exact ⟨hcs, nofun⟩
        | ok u =>
          obtain ⟨p', hset, hpend, -, hmem, hlt⟩ := hret.resolve_left fun hne => hne rfl
          have hfine' : fineEach s0 n mem is = true := by
            have := hfine.2
            rw [hmem, decide_eq_false (Nat.not_le.2 hlt)] at this
            exact this
          have hother : ∀ j, j ≠ i → s'.processes[j]? = s.processes[j]? := by
            intro j hj
            rw [hset, List.getElem?_set_ne hj.symm]
          obtain ⟨hc, hok⟩ := ih hcs hnd (fun j hj => (hother j fun heq => hni (heq ▸ hj)).trans (hsame' j hj)) hfine'
          refine ⟨hc, fun hdone => ⟨fun j hj => ?_, fun j hj r hr hd => ?_⟩⟩
          · rw [mem_cons, not_or] at hj
            exact ((hok hdone).1 j hj.2).trans (hother j hj.1)
          · rcases mem_cons.1 hj with rfl | hj
            · refine ⟨p', ?_, hpend⟩
              rw [(hok hdone).1 j hni, hset, List.getElem?_set_self (List.getElem?_eq_some_iff.1 hp).1]
            · exact (hok hdone).2 j hj r hr hd

def State.target (s : State) (pid : Int) (i : Nat) : Prop :=
  pid ≤ 0 ∨ s.processes.findIdx? (fun p => p.pid == pid) = some i

/-- The condition on a call: a signal for a process is not a standard one that is already pending there, a signal for
a thread is refused, the signal 0 is not sent to all processes, and no process number is too large. -/
def fine (s : State) : Op → Bool
  | .sendProcess pid signum _ _ mem =>
    if signum ≠ 0 ∧ Signum.ofInt signum = none then true
    else if signum = SIGSTOP ∨ signum = SIGCONT then true
    else if pid ≤ 0 then
      match Signum.ofInt signum with
      | none => s.processes.isEmpty
      | some n => fineEach s n mem (List.range s.processes.length)
    else if s.tidmapSize ≤ pid then false
    else
      match s.processes.findIdx? (fun p => p.pid == pid), Signum.ofInt signum with
      | some i, some n => fineEach s n mem [i]
      | _, _ => true
  | .sendThread tid _ _ _ mem =>
    match s.tid2pthread tid with
    | none => true
    | some (i, _) => s.processes[i]?.all fun p => !mem || decide (p.queuedMax ≤ p.queuedCount)
  | _ => true

/-- A signal that is neither ignored nor refused is pending in the queue it was sent to. -/
def Accepted (s : State) (op : Op) : Prop :=
  match op with
  | .sendProcess pid signum _ _ _ =>
    ∀ n, Signum.ofInt signum = some n → signum ≠ SIGSTOP → signum ≠ SIGCONT → (exec s op).2 = .ok () →
      ∀ i, s.target pid i → ∀ p, s.processes[i]? = some p → p.shouldDrop n = false → (step s op).pendingAt i n
  | .sendThread tid signum _ _ _ => (exec s op).2 = .ok () → ∀ i t, s.tid2pthread tid = some (i, t) →
      ∃ n p q, Signum.ofInt signum = some n ∧ (step s op).processes[i]? = some p ∧ p.queue? (some t) = some q ∧
        q.isPending n = true
  | _ => True

private theorem signo_siginfoOf (signum : Int) (siginfo : Option Siginfo) (getpid : Int) :
    (siginfoOf signum siginfo getpid).signo = signum := by
  cases siginfo <;> rfl

private theorem pendingAt_modify (hf : ∀ p, (f p).sigqueue = p.sigqueue) {j : Nat} (h : s.pendingAt i n) :
    pendingAt { s with processes := s.processes.modify j f } i n := by
  obtain ⟨p, hp, hpend⟩ := h
  by_cases hij : j = i
  · exact ⟨f p, by simp [hp, hij], by rw [hf]; exact hpend⟩
  · exact ⟨p, by simp [hp, hij], hpend⟩

private theorem exec_sendProcess {pid signum getpid : Int} {mem : Nat → Bool} (h : s.Consistent)
    (hfine : fine s (.sendProcess pid signum siginfo getpid mem) = true) :
    (step s (.sendProcess pid signum siginfo getpid mem)).Consistent ∧
    Accepted s (.sendProcess pid signum siginfo getpid mem) := by
  unfold Accepted step
  simp only [exec]
  unfold pprocessSignalProcessDo
  unfold fine at hfine
  dsimp only at hfine
  by_cases hinv : signum ≠ 0 ∧ Signum.ofInt signum = none
  · rw [if_pos hinv]
    exact ⟨h, fun n hn => absurd (hinv.2.symm.trans hn) nofun⟩
  rw [if_neg hinv] at hfine ⊢
  by_cases hstop : signum = SIGSTOP ∨ signum = SIGCONT
  · rw [if_pos hstop]
    exact ⟨h, fun n _ h1 h2 => absurd hstop (by simp [h1, h2])⟩
  rw [if_neg hstop] at hfine ⊢
  by_cases hpid : pid ≤ 0
  · rw [if_pos hpid] at hfine
    rw [if_pos (by omega)]
    cases hn : Signum.ofInt signum with
    | none =>
      simp only [hn, List.isEmpty_iff] at hfine
      simp only [hfine]
      exact ⟨h, nofun⟩
    | some n =>
      simp only [hn] at hfine
      obtain ⟨hc, hok⟩ :=
        signalEach_spec h ((signo_siginfoOf signum siginfo getpid).symm ▸ hn) nodup_range (fun _ _ => rfl) hfine
      refine ⟨hc, fun m hm _ _ hret i _ p hp hd => ?_⟩
      cases hm
      exact (hok hret).2 i (mem_range.2 (List.getElem?_eq_some_iff.1 hp).1) p hp hd
  rw [if_neg hpid] at hfine
  rw [if_neg (by omega)]
  by_cases hsize : s.tidmapSize ≤ pid
  · rw [if_pos hsize] at hfine
    cases hfine
  rw [if_neg hsize] at hfine ⊢
  cases hidx : s.processes.findIdx? (fun p => p.pid == pid) with
  | none => exact ⟨h, fun n _ _ _ hret => by cases hret⟩
  | some i =>
    have hlt : i < s.processes.length := (List.findIdx?_eq_some_iff_getElem.1 hidx).1
    obtain ⟨p, hp⟩ : ∃ p, s.processes[i]? = some p := ⟨_, List.getElem?_eq_getElem hlt⟩
    have htarget : ∀ j, s.target pid j → j = i := by
      rintro j (hle | hj)
      · exact absurd hle hpid
      · exact Option.some.inj (hj.symm.trans hidx)
    cases hn : Signum.ofInt signum with
    | none =>
      simp only [hp]
      exact ⟨h, nofun⟩
    | some n =>
      simp only [hidx, hn, fineEach, hp] at hfine
      simp only [hp]
      by_cases hdrop : p.shouldDrop n = true
      · rw [if_pos hdrop]
        refine ⟨h, fun m hm _ _ _ j hj r hr hd => ?_⟩
        cases hm
        rw [htarget j hj, hp] at hr
        cases hr
        rw [hdrop] at hd
        cases hd
      · rw [if_neg hdrop, Bool.and_eq_true] at hfine
        rw [if_neg hdrop]
        obtain ⟨hcs, hret⟩ := queueSignal_spec h hp ((signo_siginfoOf signum siginfo getpid).symm ▸ hn) hfine.1
        generalize queueSignal s i p none (siginfoOf signum siginfo getpid) (mem i) = r at hcs hret
        obtain ⟨s', ret⟩ := r
        cases ret with
        | error e => exact ⟨hcs, fun m _ _ _ hbad => by cases hbad⟩
        | ok u =>
          obtain ⟨p', hset, hpend, -⟩ := hret.resolve_left fun hne => hne rfl
          refine ⟨hcs.modify fun _ => wakeAll_moves, fun m hm _ _ _ j hj _ _ _ => ?_⟩
          cases hm
          rw [htarget j hj]
          refine pendingAt_modify (f := PosixProcess.wakeAll) (fun _ => rfl) ⟨p', ?_, hpend⟩
          rw [hset, List.getElem?_set_self hlt]

private theorem exec_sendThread {tid signum getpid : Int} (h : s.Consistent)
    (hfine : fine s (.sendThread tid signum siginfo getpid mem) = true) :
    (step s (.sendThread tid signum siginfo getpid mem)).Consistent ∧
    Accepted s (.sendThread tid signum siginfo getpid mem) := by
  unfold Accepted step
  simp only [exec]
  unfold pprocessSignalThreadDo
  simp only [fine] at hfine
  cases ht : s.tid2pthread tid with
  | none => exact ⟨h, nofun⟩
  | some r =>
    obtain ⟨i, t⟩ := r
    simp only [ht] at hfine ⊢
    cases hp : s.processes[i]? with
    | none => exact ⟨h, nofun⟩
    | some p =>
      simp only [hp, Option.all_some] at hfine ⊢
      unfold queueSignal
      cases mem with
      | false => exact ⟨h, nofun⟩
      | true =>
        have hfull : p.queuedMax ≤ p.queuedCount := of_decide_eq_true hfine
        have hrefused : pprocessSignalEnqueue p (some t) ⟨s.allocated, siginfoOf signum siginfo getpid⟩ =
          some (.error .EAGAIN) := by
          unfold pprocessSignalEnqueue
          rw [if_pos hfull]
        simp only [hrefused]
        exact ⟨h.refused, nofun⟩

private theorem step_consistent {op : Op} (h : s.Consistent) (hfine : fine s op = true) :
    (step s op).Consistent ∧ Accepted s op := by
  cases op with
  | sendProcess => exact exec_sendProcess h hfine
  | sendThread => exact exec_sendThread h hfine
  | dequeue i pthread n =>
    refine ⟨?_, trivial⟩
    unfold step
    simp only [exec]
    cases hd : s.processes[i]?.bind fun p => pprocessSignalDequeue p pthread n with
    | none => exact h
    | some r =>
      obtain ⟨p, hp, hd⟩ := Option.bind_eq_some_iff.1 hd
      exact h.set hp (dequeue_moves hd) rfl rfl (fun id hid => .inl (mem_singleton.1 hid ▸ mem_cons_self))
        (fun id hid => hid.imp_left (mem_cons_of_mem _)) fun id hid hle => absurd hid (Nat.not_lt.2 hle)
  | free id =>
    refine ⟨?_, trivial⟩
    unfold step
    simp only [exec]
    split
    · refine ⟨h.fault, h.processes, fun id' hid => (h.records id' hid).imp_right fun hplace => ?_⟩
      by_cases heq : id' = id
      · exact .inr (heq ▸ mem_cons_self)
      · exact hplace.imp (mem_erase_of_ne heq).2 (mem_cons_of_mem _)
    · exact h
  | clearPending i n => exact ⟨h.update fun _ => clearPending_moves, trivial⟩
  | threadExit i t => exact ⟨h.update fun _ => releasePthread_moves t, trivial⟩
  | setAction i drop => exact ⟨h.update fun _ => moves_of_queues rfl rfl, trivial⟩
  | setBlocked i t b =>
    refine ⟨h.update fun p => moves_of_queues ?_ rfl, trivial⟩
    exact congrArg (p.sigqueue :: ·)
      (map_sigqueue_modify (f := fun th => { th with blocked := b }) (fun _ => rfl) p.threads t)

/-- In every run of such calls the state is consistent throughout, and every signal that is accepted is pending where
it was sent. -/
theorem signals_pending {s₀ : State} {ops : List Op} (h₀ : s₀.Started)
    (hfine : Meets step (fun s op => fine s op = true) s₀ ops) :
    Always step Consistent s₀ ops ∧ Meets step Accepted s₀ ops := by
  have hc : ∀ s op, s.Consistent → fine s op = true → (step s op).Consistent :=
    fun s op h hf => (step_consistent h hf).1
  have h₁ := Started.consistent h₀
  refine ⟨hfine.always hc (fun _ h => h) h₁, ?_⟩
  exact (hfine.with_invariant hc h₁).imp fun s op h => (step_consistent h.2 h.1).2

end

def oneProcess : State := ⟨[⟨1, 0, 32, empty, fun _ => false, [⟨1, false, 0, empty⟩]⟩], 32, 0, [], [], false⟩

private theorem oneProcess_started : oneProcess.Started := by
  refine ⟨rfl, fun p hp => ?_, fun p hp q hq => ?_, rfl⟩
  · rw [mem_singleton.1 hp]
  · rw [mem_singleton.1 hp] at hq
    rcases mem_cons.1 hq with rfl | hq
    · rfl
    · rw [mem_singleton.1 hq]

theorem signals_pending_realtime : Always step Consistent oneProcess [.sendProcess 1 10 none 1 fun _ => true,
      .sendProcess 1 35 none 1 fun _ => true, .sendProcess (-1) 35 none 1 fun _ => true, .dequeue 0 none 9, .free 0,
      .clearPending 0 34] ∧
    Meets step Accepted oneProcess [.sendProcess 1 10 none 1 fun _ => true, .sendProcess 1 35 none 1 fun _ => true,
      .sendProcess (-1) 35 none 1 fun _ => true, .dequeue 0 none 9, .free 0, .clearPending 0 34] :=
  signals_pending oneProcess_started (by decide)

/-- `SIGUSR1` for the thread is in its list without its bit, and `SIGUSR1` for the process is then accepted and not
queued. Of two `SIGUSR1` for the process the second record is lost. -/
theorem not_signals_pending : (∃ ops, ¬ Always step Consistent oneProcess ops) ∧
    (∃ ops, ¬ Meets step Accepted oneProcess ops) ∧
    ¬ (run step oneProcess [.sendProcess 1 10 none 1 fun _ => true, .sendProcess 1 10 none 1 fun _ => true]).placed
    1 := by
  refine ⟨⟨[.sendThread 1 10 none 1 true], fun h => ?_⟩, ⟨[.sendThread 1 10 none 1 true], fun h => ?_⟩, ?_⟩
  · have hq := ((h.2.processes _ mem_cons_self).queues _ (mem_cons_of_mem _ mem_cons_self)).pending 9
    exact absurd (hq.2 nofun) (by decide)
  · obtain ⟨n, p, q, hn, hp, hq, hpend⟩ := h.1 rfl 0 0 rfl
    cases hn
    cases hp
    cases hq
    exact absurd hpend (by decide)
  · rintro (⟨p, hp, q, hq, n, sig, hsig, hid⟩ | hid | hid)
    · rw [mem_singleton.1 hp] at hq
      rcases mem_cons.1 hq with rfl | hq
      · change sig ∈ Function.update (fun _ => []) (9 : Signum) [⟨0, setSiginfoKill 10 1⟩] n at hsig
        rw [Function.update_apply] at hsig
        split at hsig
        · rw [mem_singleton.1 hsig] at hid
          cases hid
        · cases hsig
      · rw [mem_singleton.1 hq] at hsig
        cases hsig
    · cases hid
    · cases hid

end Unikraft.Process
