import Unikraft.Lib.Runs
import Unikraft.Lib.Threads

/-!
# Wait queues and the reader-writer lock

The queues of a set `Q` of `uk_waitq`, with the field `wq` of the ticket of each thread, and whether a thread is
blocked; each function is one section of the lock of a queue, and `none` is a failed assertion. In `rwlock.c` a step
is a section of the spinlock `sl` up to the next operation on a wait queue, or one such operation. The counters have
no bound: an `int` overflows only with 2^31 locks held or waited for at once. The invariant has facts about the point
of each thread, the counters as numbers of threads at certain points, and what keeps waiting threads from being stuck:
with no holder and a waiting writer some thread goes on or will be woken, and a blocked reader waits for a writer or
for a wake-up that is on its way.
-/

namespace Unikraft.Lock

open Function (update update_of_ne update_self)

structure Waitqs (T Q : Type) where
  waiters : Q → List T
  wq : T → Option Q
  blocked : T → Bool

namespace Waitqs

variable {T Q : Type}

def init : Waitqs T Q := ⟨fun _ => [], fun _ => none, fun _ => false⟩

variable [DecidableEq T]

def block (w : Waitqs T Q) (t : T) : Waitqs T Q := { w with blocked := update w.blocked t true }

def wake (w : Waitqs T Q) (t : T) : Waitqs T Q := { w with blocked := update w.blocked t false }

variable [DecidableEq Q]

def add (w : Waitqs T Q) (q : Q) (t : T) : Option (Waitqs T Q) :=
  if w.wq t = none then
    some { w with waiters := update w.waiters q (w.waiters q ++ [t]), wq := update w.wq t (some q) }
  else none

def remove (w : Waitqs T Q) (t : T) : Option (Waitqs T Q) :=
  match w.wq t with
  | none => none
  | some q => some { w with waiters := update w.waiters q ((w.waiters q).erase t), wq := update w.wq t none }

def wakeTicket (w : Waitqs T Q) (q : Q) (t : T) : Option (Waitqs T Q) :=
  if w.wq t = some q then some (w.wake t) else none

def wakeUpIf (w : Waitqs T Q) (q : Q) (p : T → Bool) : Option (Waitqs T Q) :=
  (w.waiters q).foldlM (fun w t => if p t then w.wakeTicket q t else some w) w

def wakeUp (w : Waitqs T Q) (q : Q) : Option (Waitqs T Q) := w.wakeUpIf q fun _ => true

def wakeUpOne (w : Waitqs T Q) (q : Q) : Option (Waitqs T Q) :=
  match w.waiters q with
  | [] => some w
  | t :: _ => w.wakeTicket q t

/-- The tickets of the threads in `q` name it. -/
def Linked (w : Waitqs T Q) (q : Q) : Prop := ∀ t ∈ w.waiters q, w.wq t = some q

variable {w : Waitqs T Q} {q : Q} {t u : T} {p : T → Bool}

theorem add_eq (h : w.wq t = none) : w.add q t =
      some { w with waiters := update w.waiters q (w.waiters q ++ [t]), wq := update w.wq t (some q) } :=
  if_pos h

theorem remove_eq (h : w.wq t = some q) : w.remove t =
      some { w with waiters := update w.waiters q ((w.waiters q).erase t), wq := update w.wq t none } := by
  rw [remove, h]

omit [DecidableEq Q] in
theorem blocked_of_wake (h : (w.wake t).blocked u = true) : w.blocked u = true := by
  have h' : update w.blocked t false u = true := h
  by_cases hu : u = t
  · rw [hu, update_self] at h'
    cases h'
  · rwa [update_of_ne hu] at h'

theorem wakeUpIf_eq (h : w.Linked q) :
    w.wakeUpIf q p = some { w with blocked := fun u => w.blocked u && !(decide (u ∈ w.waiters q) && p u) } := by
  have key : ∀ l : List T, ∀ v : Waitqs T Q, (∀ t ∈ l, v.wq t = some q) →
      l.foldlM (fun w t => if p t then w.wakeTicket q t else some w) v =
        some { v with blocked := fun u => v.blocked u && !(decide (u ∈ l) && p u) } := by
    intro l
    induction l with
    | nil =>
      simp
    | cons t l ih =>
      intro v hv
      have hl : ∀ t ∈ l, v.wq t = some q := fun u hu => hv u (List.mem_cons_of_mem _ hu)
      rw [List.foldlM_cons]
      cases hp : p t with
      | false =>
        rw [if_neg Bool.false_ne_true, Option.bind_eq_bind, Option.bind_some, ih v hl]
        have hblk : (fun u => v.blocked u && !(decide (u ∈ l) && p u)) = fun u =>
          v.blocked u && !(decide (u ∈ t :: l) && p u) := by
          funext u
          by_cases hu : u = t
          · simp [hu, hp]
          · simp [hu]
        rw [hblk]
      | true =>
        have hone : v.wakeTicket q t = some (v.wake t) := if_pos (hv t (List.mem_cons_self ..))
        rw [if_pos rfl, hone, Option.bind_eq_bind, Option.bind_some, ih (v.wake t) hl]
        have hblk : (fun u => (v.wake t).blocked u && !(decide (u ∈ l) && p u)) =
            fun u => v.blocked u && !(decide (u ∈ t :: l) && p u) := by
          funext u
          by_cases hu : u = t
          · simp [hu, hp, wake]
          · simp [hu, wake]
        rw [hblk]
        rfl
  exact key (w.waiters q) w h

theorem wakeUp_eq (h : w.Linked q) :
    w.wakeUp q = some { w with blocked := fun u => w.blocked u && !decide (u ∈ w.waiters q) } := by
  rw [wakeUp, wakeUpIf_eq h]
  simp

/-- The first thread of the queue is woken. -/
theorem wakeUpOne_cons {l : List T} (h : w.Linked q) (hq : w.waiters q = t :: l) :
    w.wakeUpOne q = some (w.wake t) := by
  rw [wakeUpOne, hq]
  exact if_pos (h t (hq ▸ List.mem_cons_self ..))

theorem wakeUpOne_nil (hq : w.waiters q = []) : w.wakeUpOne q = some w := by rw [wakeUpOne, hq]

end Waitqs

inductive Mode where
  | read
  | write
  deriving DecidableEq

/-- Points of `_uk_waitq_wait`: before the ticket is added, before `unlock_fn`, in `uk_sched_yield`, before the ticket
is removed. -/
inductive WaitPc where
  | add
  | unlock
  | sleep
  | remove
  deriving DecidableEq

/-- Points of `_uk_waitq_wait_until`: `test` is the section that tests the condition again. -/
inductive EventPc where
  | add
  | unlock
  | sleep
  | test
  deriving DecidableEq

/-- Where a thread is. `wait` is the first wait of `uk_rwlock_rlock`, `check` and `event` are the wait for the
condition, `take` is the end of a lock function, and `wakeOne` and `wakeAll` are the ends of the unlock functions. -/
inductive Rpc where
  | idle
  | lock (m : Mode)
  | wait (p : WaitPc)
  | check (m : Mode)
  | event (m : Mode) (p : EventPc)
  | take (m : Mode)
  | unlock (m : Mode)
  | wakeOne
  | wakeAll
  deriving DecidableEq

structure UkRwlock (T : Type) where
  nactive : Int
  npendingReads : Nat
  npendingWrites : Nat
  sl : Option T

def Mode.ready : Mode → Int → Bool
  | .read, nactive => decide (nactive ≥ 0)
  | .write, nactive => decide (nactive = 0)

/-- The lock, the wait queues, the points of the threads, and how often each thread has the lock. `failed` says that
an assertion failed. -/
structure RwState (T Q : Type) where
  lock : UkRwlock T
  wqs : Waitqs T Q
  pc : T → Rpc
  reads : T → Nat
  writer : T → Bool
  failed : Bool

namespace RwState

variable {T Q : Type}

def init : RwState T Q := ⟨⟨0, 0, 0, none⟩, .init, fun _ => .idle, fun _ => 0, fun _ => false, false⟩

variable [DecidableEq T] (s : RwState T Q)

def goto (t : T) (p : Rpc) : RwState T Q := { s with pc := Function.update s.pc t p }

def setLock (l : UkRwlock T) : RwState T Q := { s with lock := l }

/-- The state after an operation on the wait queues that does not fail. -/
def withWqs (w : Option (Waitqs T Q)) (k : RwState T Q → RwState T Q) : RwState T Q :=
  match w with
  | none => { s with failed := true }
  | some w => k { s with wqs := w }

variable [DecidableEq Q] (qs : Mode → Q)

/-- The next step of a thread; nothing happens if it has to wait for the spinlock or is blocked. -/
def exec (t : T) : RwState T Q :=
  let l := s.lock
  match s.pc t with
  | .idle => s
  | .lock .read =>
    if l.sl ≠ none then s
    else
      (s.setLock { l with npendingReads := l.npendingReads + 1, sl := some t }).goto t
        (if l.npendingWrites > 0 then .wait .add else .check .read)
  | .lock .write =>
    if l.sl ≠ none then s
    else (s.setLock { l with npendingWrites := l.npendingWrites + 1, sl := some t }).goto t (.check .write)
  | .wait .add => s.withWqs ((s.wqs.add (qs .read) t).map (·.block t)) fun s => s.goto t (.wait .unlock)
  | .wait .unlock => (s.setLock { l with sl := none }).goto t (.wait .sleep)
  | .wait .sleep =>
    if s.wqs.blocked t = true ∨ l.sl ≠ none then s else (s.setLock { l with sl := some t }).goto t (.wait .remove)
  | .wait .remove => s.withWqs (s.wqs.remove t) fun s => s.goto t (.check .read)
  | .check m => s.goto t (if m.ready l.nactive then .take m else .event m .add)
  | .event m .add =>
    if m.ready l.nactive then s.goto t (.take m)
    else s.withWqs ((s.wqs.add (qs m) t).map (·.block t)) fun s => s.goto t (.event m .unlock)
  | .event m .unlock => (s.setLock { l with sl := none }).goto t (.event m .sleep)
  | .event m .sleep =>
    if s.wqs.blocked t = true ∨ l.sl ≠ none then s else (s.setLock { l with sl := some t }).goto t (.event m .test)
  | .event m .test =>
    if m.ready l.nactive then s.withWqs (s.wqs.remove t) fun s => s.goto t (.take m)
    else ({ s with wqs := s.wqs.block t } : RwState T Q).goto t (.event m .unlock)
  | .take .read =>
    { (s.setLock { l with nactive := l.nactive + 1, npendingReads := l.npendingReads - 1, sl := none }).goto t
        .idle with
      reads := Function.update s.reads t (s.reads t + 1) }
  | .take .write =>
    { (s.setLock { l with nactive := -1, npendingWrites := l.npendingWrites - 1, sl := none }).goto t .idle with
      writer := Function.update s.writer t true
      failed := s.failed || decide (l.npendingWrites = 0) || decide (l.nactive ≠ 0) }
  | .unlock .read =>
    if l.sl ≠ none then s
    else
      { (s.setLock { l with nactive := l.nactive - 1 }).goto t
          (if l.nactive - 1 = 0 ∧ l.npendingWrites > 0 then .wakeOne else .idle) with
        reads := Function.update s.reads t (s.reads t - 1)
        failed := s.failed || decide (l.nactive ≤ 0) }
  | .unlock .write =>
    if l.sl ≠ none then s
    else
      { (s.setLock { l with nactive := 0 }).goto t (if l.npendingReads > 0 then .wakeAll else .wakeOne) with
        writer := Function.update s.writer t false
        failed := s.failed || decide (l.nactive ≠ -1) }
  | .wakeOne => s.withWqs (s.wqs.wakeUpOne (qs .write)) fun s => s.goto t .idle
  | .wakeAll => s.withWqs (s.wqs.wakeUp (qs .read)) fun s => s.goto t .idle

/-- A thread calls an unlock function only if it has the lock. -/
def call (t : T) (p : Rpc) : RwState T Q :=
  match s.pc t, p with
  | .idle, .lock m => s.goto t (.lock m)
  | .idle, .unlock .read => if 0 < s.reads t then s.goto t (.unlock .read) else s
  | .idle, .unlock .write => if s.writer t then s.goto t (.unlock .write) else s
  | _, _ => s

end RwState

/-- A thread calls one of the functions, makes a step in it, or is woken by code that does not belong to the lock. -/
inductive RwAct (T : Type) where
  | call (t : T) (p : Rpc)
  | exec (t : T)
  | wake (t : T)

def RwState.step {T Q : Type} [DecidableEq T] [DecidableEq Q] (qs : Mode → Q) (s : RwState T Q) (a : RwAct T) :
    RwState T Q :=
  if s.failed then s
  else
    match a with
    | .call t p => s.call t p
    | .exec t => s.exec qs t
    | .wake t => { s with wqs := s.wqs.wake t }

open Runs RwState Threads Waitqs

def Rpc.holdsSl : Rpc → Bool
  | .wait .add | .wait .unlock | .wait .remove => true
  | .check _ | .take _ => true
  | .event _ .add | .event _ .unlock | .event _ .test => true
  | _ => false

/-- The thread is counted in `npending_reads` or `npending_writes`. -/
def Rpc.pending : Mode → Rpc → Nat
  | .read, .wait _ => 1
  | m, .check m' | m, .event m' _ | m, .take m' => if m = m' then 1 else 0
  | _, _ => 0

def Rpc.queued : Rpc → Option Mode
  | .wait .unlock | .wait .sleep | .wait .remove => some .read
  | .event m .unlock | .event m .sleep | .event m .test => some m
  | _ => none

/-- A waiting thread that goes on to take the lock if it can: it is not blocked, or has the spinlock again. -/
def Rpc.woken : Rpc → Bool → Bool
  | .check _, _ | .take _, _ | .wait .remove, _ | .event _ .test, _ => true
  | .wait .unlock, b | .wait .sleep, b | .event _ .unlock, b | .event _ .sleep, b => !b
  | _, _ => false

/-- What a thread with the spinlock, or a holder that calls an unlock function, knows at its point. -/
def Rpc.Point {T : Type} (l : UkRwlock T) (reads : Nat) (writer : Bool) : Rpc → Prop
  | .wait .add => 0 < l.npendingWrites
  | .event m .add => m.ready l.nactive = false
  | .take m => m.ready l.nactive = true
  | .unlock .read => 0 < reads
  | .unlock .write => writer = true
  | _ => True

variable {T Q : Type} {qs : Mode → Q} {l l' : UkRwlock T} {w w' : Waitqs T Q} {pc : T → Rpc} {t : T} {p q : Rpc}
    {m : Mode} {n : Int}

section
variable [Fintype T]

structure Counted (l : UkRwlock T) (pc : T → Rpc) : Prop where
  sl : ∀ t, l.sl = some t ↔ (pc t).holdsSl = true
  reads : l.npendingReads = ∑ t, (pc t).pending .read
  writes : l.npendingWrites = ∑ t, (pc t).pending .write

def Held (nactive : Int) (reads : T → Nat) (writer : T → Bool) : Prop :=
  (∀ t, writer t = false) ∧ nactive = ((∑ t, reads t : Nat) : Int) ∨
    ∃ t, writer t = true ∧ (∀ u, u ≠ t → writer u = false) ∧ (∀ u, reads u = 0) ∧ nactive = -1

omit [Fintype T] in
/-- The wait queues have the tickets of the threads at the points between adding and removing them. -/
structure Queues (qs : Mode → Q) (w : Waitqs T Q) (pc : T → Rpc) : Prop where
  mem : ∀ t m, t ∈ w.waiters (qs m) ↔ (pc t).queued = some m
  ticket : ∀ t m, w.wq t = some (qs m) ↔ (pc t).queued = some m
  nodup : ∀ m, (w.waiters (qs m)).Nodup

omit [Fintype T] in
structure Progress (qs : Mode → Q) (l : UkRwlock T) (w : Waitqs T Q) (pc : T → Rpc) : Prop where
  writers : l.nactive = 0 → 0 < l.npendingWrites →
    (∃ t, (pc t).woken (w.blocked t) = true) ∨ (∃ t, pc t = .wakeOne) ∨ ∃ t, pc t = .wakeAll ∧
      w.waiters (qs .read) ≠ []
  readers : ∀ t, (pc t).queued = some .read → w.blocked t = true →
    l.nactive < 0 ∨ 0 < l.npendingWrites ∨ ∃ u, pc u = .wakeAll

structure RwInv (qs : Mode → Q) (s : RwState T Q) : Prop where
  counted : Counted s.lock s.pc
  held : Held s.lock.nactive s.reads s.writer
  point : ∀ t, (s.pc t).Point s.lock (s.reads t) (s.writer t)
  queues : Queues qs s.wqs s.pc
  progress : Progress qs s.lock s.wqs s.pc
  failed : s.failed = false

end

/-! ### The spinlock and the counters -/

section
variable [Fintype T] [DecidableEq T] {u : T}

omit [DecidableEq T] in
private theorem Counted.not_holds (h : Counted l pc) (hq : pc t = q) (ht : q.holdsSl = true ∨ l.sl = none)
    (hu : u ≠ t) :
    (pc u).holdsSl = false := by
  rw [← Bool.not_eq_true, ← h.sl u]
  intro hsl
  rcases ht with ht | ht
  · rw [(h.sl t).2 (hq ▸ ht)] at hsl
    exact hu (Option.some.inj hsl).symm
  · rw [ht] at hsl
    cases hsl

/-- The counters follow a thread from one point to the next. -/
theorem Counted.step (h : Counted l pc) (hq : pc t = q) (ht : q.holdsSl = true ∨ l.sl = none)
    (hsl : l'.sl = if p.holdsSl then some t else none)
    (hr : l'.npendingReads + q.pending .read = l.npendingReads + p.pending .read)
    (hw : l'.npendingWrites + q.pending .write = l.npendingWrites + p.pending .write) :
    Counted l' (update pc t p) := by
  subst hq
  refine ⟨fun u => ?_, ?_, ?_⟩
  · by_cases hu : u = t
    · subst hu
      rw [update_self, hsl]
      cases p.holdsSl <;> simp
    · rw [update_of_ne hu, hsl, h.not_holds rfl ht hu]
      cases p.holdsSl with
      | true => simp [Ne.symm hu]
      | false => simp
  · have hsum := sum_update pc t p (Rpc.pending .read)
    have hold := h.reads
    omega
  · have hsum := sum_update pc t p (Rpc.pending .write)
    have hold := h.writes
    omega

private theorem Counted.goto (h : Counted l pc) (hq : pc t = q) (hp : p.holdsSl = q.holdsSl)
    (hpend : ∀ m, p.pending m = q.pending m) :
    Counted l (update pc t p) := by
  refine ⟨fun u => ?_, ?_, ?_⟩
  · rw [apply_update Rpc.holdsSl hq hp]
    exact h.sl u
  · rw [h.reads]
    exact Finset.sum_congr rfl fun u _ => (apply_update (Rpc.pending .read) hq (hpend .read) u).symm
  · rw [h.writes]
    exact Finset.sum_congr rfl fun u _ => (apply_update (Rpc.pending .write) hq (hpend .write) u).symm

omit [Fintype T] [DecidableEq T] in
private theorem Rpc.Point.of_not_holds {r : Nat} {b : Bool} (h : p.Point l r b) (hp : p.holdsSl = false) :
    p.Point l' r b := by
  cases p with
  | idle | lock m | check m | wakeOne | wakeAll => trivial
  | wait q => cases q <;> trivial
  | event m q => cases q <;> trivial
  | take m => cases hp
  | unlock m => cases m <;> exact h

private theorem point_step {reads reads' : T → Nat} {writer writer' : T → Bool} (h : Counted l pc)
    (hpoint : ∀ u, (pc u).Point l (reads u) (writer u)) (hq : pc t = q) (ht : q.holdsSl = true ∨ l.sl = none)
    (hp : p.Point l' (reads' t) (writer' t)) (hr : ∀ u, u ≠ t → reads' u = reads u)
    (hw : ∀ u, u ≠ t → writer' u = writer u) (u : T) :
    (update pc t p u).Point l' (reads' u) (writer' u) := by
  by_cases hu : u = t
  · subst hu
    rwa [update_self]
  · rw [update_of_ne hu, hr u hu, hw u hu]
    exact (hpoint u).of_not_holds (h.not_holds hq ht hu)

end

section
variable [DecidableEq T] [DecidableEq Q]

omit [DecidableEq Q] in
private theorem Queues.goto (h : Queues qs w pc) (hw : w'.waiters = w.waiters) (hwq : w'.wq = w.wq) (hq : pc t = q)
    (hp : p.queued = q.queued) :
    Queues qs w' (update pc t p) := by
  refine ⟨fun u m => ?_, fun u m => ?_, fun m => hw ▸ h.nodup m⟩
  · rw [hw, apply_update Rpc.queued hq hp, h.mem]
  · rw [hwq, apply_update Rpc.queued hq hp, h.ticket]

omit [DecidableEq T] [DecidableEq Q] in
theorem Queues.linked (h : Queues qs w pc) (m : Mode) : w.Linked (qs m) :=
  fun t ht => (h.ticket t m).2 ((h.mem t m).1 ht)

section
variable (inj : Function.Injective qs)
include inj

private theorem Queues.change (h : Queues qs w pc) {l : List T} {o : Option Q}
    (hw : w'.waiters = update w.waiters (qs m) l) (hwq : w'.wq = update w.wq t o)
    (ht : ∀ k, o = some (qs k) ↔ p.queued = some k) (hmem : t ∈ l ↔ p.queued = some m)
    (hother : ∀ k, k ≠ m → (t ∈ w.waiters (qs k) ↔ p.queued = some k))
    (hl : ∀ u, u ≠ t → (u ∈ l ↔ u ∈ w.waiters (qs m))) (hnodup : l.Nodup) : Queues qs w' (update pc t p) := by
  have hsame : w'.waiters (qs m) = l := by rw [hw, update_self]
  have hne : ∀ {k}, k ≠ m → w'.waiters (qs k) = w.waiters (qs k) :=
    fun hk => by rw [hw, update_of_ne fun he => hk (inj he)]
  refine ⟨fun u k => ?_, fun u k => ?_, fun k => ?_⟩
  · by_cases hu : u = t
    · subst hu
      rw [update_self]
      by_cases hk : k = m
      · rw [hk, hsame, hmem]
      · rw [hne hk, hother k hk]
    · rw [update_of_ne hu, ← h.mem]
      by_cases hk : k = m
      · rw [hk, hsame, hl u hu]
      · rw [hne hk]
  · rw [hwq]
    by_cases hu : u = t
    · subst hu
      rw [update_self, update_self, ht]
    · rw [update_of_ne hu, update_of_ne hu, h.ticket]
  · by_cases hk : k = m
    · rwa [hk, hsame]
    · rw [hne hk]
      exact h.nodup k

private theorem Queues.add (h : Queues qs w pc) (hq : pc t = q) (hqueued : q.queued = none) (hp : p.queued = some m)
    (hw : w'.waiters = update w.waiters (qs m) (w.waiters (qs m) ++ [t]))
    (hwq : w'.wq = update w.wq t (some (qs m))) :
    Queues qs w' (update pc t p) := by
  have hnot : ∀ k, t ∉ w.waiters (qs k) := by
    intro k ht
    rw [h.mem, hq, hqueued] at ht
    cases ht
  refine h.change inj hw hwq (fun k => ?_) ?_ (fun k hk => ?_) (fun u hu => ?_)
    ((h.nodup m).append (List.nodup_singleton t) (List.disjoint_singleton.2 (hnot m)))
  · rw [hp, Option.some_inj, Option.some_inj, inj.eq_iff]
  · simp [hp]
  · simp [hp, hnot k, Ne.symm hk]
  · simp [hu]

private theorem Queues.remove (h : Queues qs w pc) (hq : pc t = q) (hqueued : q.queued = some m)
    (hp : p.queued = none)
    (hw : w'.waiters = update w.waiters (qs m) ((w.waiters (qs m)).erase t)) (hwq : w'.wq = update w.wq t none) :
    Queues qs w' (update pc t p) := by
  refine h.change inj hw hwq (fun k => ?_) ?_ (fun k hk => ?_) (fun u hu => ?_) ((h.nodup m).erase t)
  · simp [hp]
  · simp [hp, (h.nodup m).mem_erase_iff]
  · rw [h.mem, hq, hqueued, hp]
    exact ⟨fun he => absurd (Option.some.inj he).symm hk, nofun⟩
  · simp [hu]

end

end

section
variable [DecidableEq T]

private theorem Progress.carry (h : Progress qs l w pc) (hq : pc t = q) (hb : ∀ u, u ≠ t → w'.blocked u = w.blocked u)
    (hpc : q ≠ .wakeOne ∧ q ≠ .wakeAll)
    (hwriters : l'.nactive = 0 → 0 < l'.npendingWrites → p.woken (w'.blocked t) = true ∨ p = .wakeOne ∨
      l.nactive = 0 ∧ 0 < l.npendingWrites ∧ q.woken (w.blocked t) = false ∧
        (w.waiters (qs .read) ≠ [] → w'.waiters (qs .read) ≠ []))
        (hreader : p.queued = some .read → w'.blocked t = true →
      l'.nactive < 0 ∨ 0 < l'.npendingWrites ∨ q.queued = some .read ∧ w.blocked t = true)
    (hmono : l.nactive < 0 ∨ 0 < l.npendingWrites → l'.nactive < 0 ∨ 0 < l'.npendingWrites) :
    Progress qs l' w' (update pc t p) := by
  subst hq
  have hall : (∃ u, pc u = .wakeAll) → ∃ u, update pc t p u = .wakeAll := by
    rintro ⟨u, hu⟩
    have hne : u ≠ t := fun he => hpc.2 (he ▸ hu)
    exact ⟨u, by rw [update_of_ne hne, hu]⟩
  have hold : ∀ u, (pc u).queued = some .read → w.blocked u = true →
      l'.nactive < 0 ∨ 0 < l'.npendingWrites ∨ ∃ u, update pc t p u = .wakeAll := by
    intro u hq hblk
    rcases h.readers u hq hblk with h1 | h1 | h1
    · exact (hmono (.inl h1)).imp id .inl
    · exact (hmono (.inr h1)).imp id .inl
    · exact .inr (.inr (hall h1))
  refine ⟨fun h0 hpos => ?_, fun u hq hblk => ?_⟩
  · rcases hwriters h0 hpos with hp | hp | ⟨h0, hpos, hnot, hne⟩
    · exact .inl ⟨t, by rwa [update_self]⟩
    · exact .inr (.inl ⟨t, by rw [update_self, hp]⟩)
    · rcases h.writers h0 hpos with ⟨u, hu⟩ | ⟨u, hu⟩ | ⟨u, hu, hwait⟩
      · have hut : u ≠ t := by
          rintro rfl
          rw [hnot] at hu
          cases hu
        exact .inl ⟨u, by rw [update_of_ne hut, hb u hut, hu]⟩
      · have hut : u ≠ t := fun he => hpc.1 (he ▸ hu)
        exact .inr (.inl ⟨u, by rw [update_of_ne hut, hu]⟩)
      · have hut : u ≠ t := fun he => hpc.2 (he ▸ hu)
        exact .inr (.inr ⟨u, by rw [update_of_ne hut, hu], hne hwait⟩)
  · by_cases hu : u = t
    · subst hu
      rw [update_self] at hq
      rcases hreader hq hblk with h1 | h1 | h1
      · exact .inl h1
      · exact .inr (.inl h1)
      · exact hold u h1.1 h1.2
    · rw [update_of_ne hu] at hq
      rw [hb u hu] at hblk
      exact hold u hq hblk

omit [DecidableEq T] in
theorem Rpc.woken_mono {b b' : Bool} (hb : b' = true → b = true) (h : p.woken b = true) : p.woken b' = true := by
  cases b' with
  | true => rwa [hb rfl] at h
  | false =>
    cases p with
    | wait q => cases q <;> first | rfl | cases h
    | event m q => cases q <;> first | rfl | cases h
    | _ => exact h

omit [DecidableEq T] in
private theorem Progress.wake (h : Progress qs l w pc) (hw : w'.waiters = w.waiters)
    (hb : ∀ u, w'.blocked u = true → w.blocked u = true) :
    Progress qs l w' pc := by
  refine ⟨fun h0 hpos => ?_, fun u hq hblk => h.readers u hq (hb u hblk)⟩
  rcases h.writers h0 hpos with ⟨u, hu⟩ | hu | hu
  · exact .inl ⟨u, Rpc.woken_mono (hb u) hu⟩
  · exact .inr (.inl hu)
  · rw [hw]
    exact .inr (.inr hu)

end

section
variable [Fintype T] {reads : T → Nat} {writer : T → Bool}

section
variable (h : Held n reads writer)
include h

private theorem Held.of_nonneg (hn : 0 ≤ n) : (∀ u, writer u = false) ∧ n = ((∑ u, reads u : Nat) : Int) := by
  rcases h with h | ⟨u, -, -, -, hneg⟩
  · exact h
  · omega

/-- A writer is alone. -/
theorem Held.of_writer (ht : writer t = true) : (∀ u, u ≠ t → writer u = false) ∧ (∀ u, reads u = 0) ∧ n = -1 := by
  rcases h with ⟨hno, -⟩ | ⟨u, -, huniq, hreads, hn⟩
  · rw [hno t] at ht
    cases ht
  · have htu : t = u := by
      by_contra hne
      rw [huniq t hne] at ht
      cases ht
    subst htu
    exact ⟨huniq, hreads, hn⟩

private theorem Held.of_reads (ht : 0 < reads t) : (∀ u, writer u = false) ∧ n = ((∑ u, reads u : Nat) : Int) ∧
    0 < n := by
  rcases h with ⟨hno, hn⟩ | ⟨u, -, -, hreads, -⟩
  · have hle := le_sum reads t id
    simp only [id] at hle
    exact ⟨hno, hn, by omega⟩
  · rw [hreads t] at ht
    omega

private theorem Held.of_free (hfree : ∀ u, ¬ (writer u = true ∨ 0 < reads u)) : n = 0 := by
  rcases h with ⟨-, hn⟩ | ⟨u, hu, -⟩
  · have hzero : ∑ u, reads u = 0 :=
      Finset.sum_eq_zero fun u _ => Nat.eq_zero_of_not_pos fun hpos => hfree u (.inr hpos)
    rw [hn, hzero]
    rfl
  · exact absurd (.inl hu) (hfree u)

end

variable [DecidableEq T]

section
variable (h : Held n reads writer)
include h

private theorem Held.takeRead (hn : 0 ≤ n) : Held (n + 1) (update reads t (reads t + 1)) writer := by
  obtain ⟨hno, hsum⟩ := h.of_nonneg hn
  have hup := sum_update reads t (reads t + 1) id
  simp only [id] at hup
  exact .inl ⟨hno, by omega⟩

private theorem Held.takeWrite (hn : n = 0) : Held (-1) reads (update writer t true) := by
  obtain ⟨hno, hsum⟩ := h.of_nonneg (by omega)
  refine .inr ⟨t, update_self .., fun u hu => ?_, fun u => ?_, rfl⟩
  · rw [update_of_ne hu, hno]
  · have hle := le_sum reads u id
    simp only [id] at hle
    omega

private theorem Held.unlockRead (ht : 0 < reads t) : Held (n - 1) (update reads t (reads t - 1)) writer := by
  obtain ⟨hno, hsum, -⟩ := h.of_reads ht
  have hup := sum_update reads t (reads t - 1) id
  simp only [id] at hup
  exact .inl ⟨hno, by omega⟩

private theorem Held.unlockWrite (ht : writer t = true) : Held 0 reads (update writer t false) := by
  obtain ⟨huniq, hreads, -⟩ := h.of_writer ht
  refine .inl ⟨fun u => ?_, ?_⟩
  · by_cases hu : u = t
    · rw [hu, update_self]
    · rw [update_of_ne hu, huniq u hu]
  · rw [Finset.sum_eq_zero fun u _ => hreads u]
    rfl

end

end

section
variable [Fintype T] [DecidableEq T] [DecidableEq Q] {s : RwState T Q}

theorem ready_read : Mode.ready .read n = true ↔ 0 ≤ n := decide_eq_true_iff

private theorem ready_write : Mode.ready .write n = true ↔ n = 0 := decide_eq_true_iff

private theorem not_ready_ne (h : m.ready n = false) : n ≠ 0 := by
  rintro rfl
  cases m <;> cases h

private theorem not_ready_neg (h : Mode.ready .read n = false) : n < 0 := by
  have : ¬0 ≤ n := of_decide_eq_false h
  omega

section
variable (h : RwInv qs s)
include h

section

omit [DecidableEq Q]

private theorem RwInv.lockRead (hpc : s.pc t = .lock .read) (hsl : s.lock.sl = none) :
    RwInv qs ((s.setLock { s.lock with npendingReads := s.lock.npendingReads + 1, sl := some t }).goto t
      (if s.lock.npendingWrites > 0 then .wait .add else .check .read)) := by
  have hprogress : ∀ p : Rpc, p.queued = none →
    Progress qs { s.lock with npendingReads := s.lock.npendingReads + 1, sl := some t }
      s.wqs (update s.pc t p) := by
    intro p hp
    refine h.progress.carry hpc (fun _ _ => rfl) ⟨nofun, nofun⟩ (fun h0 hpos => .inr (.inr ⟨h0, hpos, rfl, id⟩))
      (fun hq => ?_) id
    rw [hp] at hq
    cases hq
  split
  case isTrue hpos =>
    exact ⟨h.counted.step hpc (.inr hsl) rfl rfl rfl, h.held,
      point_step h.counted h.point hpc (.inr hsl) hpos (fun _ _ => rfl) fun _ _ => rfl,
      h.queues.goto rfl rfl hpc rfl, hprogress _ rfl, h.failed⟩
  case isFalse =>
    exact ⟨h.counted.step hpc (.inr hsl) rfl rfl rfl, h.held,
      point_step h.counted h.point hpc (.inr hsl) trivial (fun _ _ => rfl) fun _ _ => rfl,
      h.queues.goto rfl rfl hpc rfl, hprogress _ rfl, h.failed⟩

private theorem RwInv.lockWrite (hpc : s.pc t = .lock .write) (hsl : s.lock.sl = none) :
    RwInv qs ((s.setLock { s.lock with
      npendingWrites := s.lock.npendingWrites + 1, sl := some t }).goto t (.check .write)) :=
  ⟨h.counted.step hpc (.inr hsl) rfl rfl rfl, h.held,
    point_step h.counted h.point hpc (.inr hsl) trivial (fun _ _ => rfl) fun _ _ => rfl,
      h.queues.goto rfl rfl hpc rfl,
    h.progress.carry hpc (fun _ _ => rfl) ⟨nofun, nofun⟩ (fun _ _ => .inl rfl) nofun fun _ => .inr (Nat.succ_pos _),
      h.failed⟩

private theorem RwInv.move (hpc : s.pc t = q) (ht : q.holdsSl = true ∨ s.lock.sl = none)
    (hl : l = { s.lock with sl := if p.holdsSl then some t else none }) (hpend : ∀ m, q.pending m = p.pending m)
    (hq : p.queued = q.queued) (hne : q ≠ .wakeOne ∧ q ≠ .wakeAll)
    (hwoken : s.lock.nactive = 0 → q.woken (s.wqs.blocked t) = true → p.woken (s.wqs.blocked t) = true)
    (hpoint : p.Point s.lock (s.reads t) (s.writer t)) : RwInv qs ((s.setLock l).goto t p) := by
  subst hl
  have hpoint' : p.Point { s.lock with sl := if p.holdsSl then some t else none } (s.reads t) (s.writer t) := by
    cases p with
    | wait q | unlock q => cases q <;> exact hpoint
    | event m q => cases q <;> exact hpoint
    | _ => exact hpoint
  refine ⟨h.counted.step hpc ht rfl ?_ ?_, h.held, point_step h.counted h.point hpc ht hpoint' (fun _ _ => rfl)
      fun _ _ => rfl,
    h.queues.goto rfl rfl hpc hq, ?_, h.failed⟩
  · rw [hpend]
    rfl
  · rw [hpend]
    rfl
  · refine h.progress.carry hpc (fun _ _ => rfl) hne (fun h0 hpos => ?_)
      (fun hread hblk => .inr (.inr ⟨hq ▸ hread, hblk⟩)) id
    cases hold : q.woken (s.wqs.blocked t) with
    | true => exact .inl (hwoken h0 hold)
    | false => exact .inr (.inr ⟨h0, hpos, rfl, id⟩)

private theorem RwInv.waitUnlock (hpc : s.pc t = .wait .unlock) :
    RwInv qs ((s.setLock { s.lock with sl := none }).goto t (.wait .sleep)) :=
  h.move hpc (.inl rfl) rfl (fun m => by cases m <;> rfl) rfl ⟨nofun, nofun⟩ (fun _ => id) trivial

private theorem RwInv.waitSleep (hpc : s.pc t = .wait .sleep) (hsl : s.lock.sl = none) :
    RwInv qs ((s.setLock { s.lock with sl := some t }).goto t (.wait .remove)) :=
  h.move hpc (.inr hsl) rfl (fun m => by cases m <;> rfl) rfl ⟨nofun, nofun⟩ (fun _ _ => rfl) trivial

private theorem RwInv.eventUnlock (hpc : s.pc t = .event m .unlock) :
    RwInv qs ((s.setLock { s.lock with sl := none }).goto t (.event m .sleep)) :=
  h.move hpc (.inl rfl) rfl (fun m' => by cases m' <;> rfl) rfl ⟨nofun, nofun⟩ (fun _ => id) trivial

private theorem RwInv.eventSleep (hpc : s.pc t = .event m .sleep) (hsl : s.lock.sl = none) :
    RwInv qs ((s.setLock { s.lock with sl := some t }).goto t (.event m .test)) :=
  h.move hpc (.inr hsl) rfl (fun m' => by cases m' <;> rfl) rfl ⟨nofun, nofun⟩ (fun _ _ => rfl) trivial

private theorem RwInv.checkStep (hpc : s.pc t = .check m) :
    RwInv qs (s.goto t (if m.ready s.lock.nactive then .take m else .event m .add)) := by
  have hsl : s.lock.sl = some t := (h.counted.sl t).2 (by rw [hpc]; rfl)
  have hl : s.lock = { s.lock with sl := some t } := by rw [← hsl]
  cases hr : m.ready s.lock.nactive with
  | true =>
    exact h.move hpc (.inl rfl) hl (fun m' => by cases m' <;> rfl) rfl ⟨nofun, nofun⟩ (fun _ _ => rfl) hr
  | false =>
    exact h.move hpc (.inl rfl) hl (fun m' => by cases m' <;> rfl) rfl ⟨nofun, nofun⟩
      (fun h0 => absurd h0 (not_ready_ne hr)) hr

end

end

omit [Fintype T] [DecidableEq T] [DecidableEq Q] in
private theorem Rpc.not_wakes (hp : p.holdsSl = true) : p ≠ .wakeOne ∧ p ≠ .wakeAll := by
  refine ⟨?_, ?_⟩ <;> rintro rfl <;> cases hp

private theorem RwInv.enqueue (inj : Function.Injective qs) (h : RwInv qs s) (hfree : s.wqs.wq t = none)
    (hpc : s.pc t = q) (hq : q.holdsSl = true ∧ q.queued = none ∧ ∀ b, q.woken b = false)
    (hp : p.holdsSl = true ∧ p.queued = some m) (hpend : ∀ m, q.pending m = p.pending m)
    (hpoint : p.Point s.lock (s.reads t) (s.writer t))
    (hreader : m = .read → s.lock.nactive < 0 ∨ 0 < s.lock.npendingWrites) :
    RwInv qs (s.withWqs ((s.wqs.add (qs m) t).map (·.block t)) fun s => s.goto t p) := by
  have hsl : s.lock.sl = some t := (h.counted.sl t).2 (hpc ▸ hq.1)
  rw [add_eq hfree]
  refine ⟨h.counted.step hpc (.inl hq.1) ?_ ?_ ?_, h.held,
    point_step h.counted h.point hpc (.inl hq.1) hpoint (fun _ _ => rfl) fun _ _ => rfl,
      h.queues.add inj hpc hq.2.1 hp.2 rfl rfl, ?_, h.failed⟩
  · rw [hp.1]
    exact hsl
  · rw [hpend]
    rfl
  · rw [hpend]
    rfl
  · refine h.progress.carry hpc (fun u hu => update_of_ne hu ..) (Rpc.not_wakes hq.1)
      (fun h0 hpos => .inr (.inr ⟨h0, hpos, hq.2.2 _, fun hwait => ?_⟩)) (fun hread _ => ?_) id
    · change update s.wqs.waiters (qs m) (s.wqs.waiters (qs m) ++ [t]) (qs .read) ≠ []
      by_cases hm : qs .read = qs m
      · rw [hm]
        simp
      · rwa [update_of_ne hm]
    · rw [hp.2] at hread
      exact (hreader (Option.some.inj hread)).imp id .inl

private theorem RwInv.dequeue (inj : Function.Injective qs) (h : RwInv qs s) (hpc : s.pc t = q)
    (hq : q.holdsSl = true ∧ q.queued = some m) (hp : p.holdsSl = true ∧ p.queued = none ∧ ∀ b, p.woken b = true)
    (hpend : ∀ m, q.pending m = p.pending m) (hpoint : p.Point s.lock (s.reads t) (s.writer t)) :
    RwInv qs (s.withWqs (s.wqs.remove t) fun s => s.goto t p) := by
  have hsl : s.lock.sl = some t := (h.counted.sl t).2 (hpc ▸ hq.1)
  rw [remove_eq ((h.queues.ticket t m).2 (hpc ▸ hq.2))]
  refine ⟨h.counted.step hpc (.inl hq.1) ?_ ?_ ?_, h.held,
    point_step h.counted h.point hpc (.inl hq.1) hpoint (fun _ _ => rfl) fun _ _ => rfl,
      h.queues.remove inj hpc hq.2 hp.2.1 rfl rfl, ?_, h.failed⟩
  · rw [hp.1]
    exact hsl
  · rw [hpend]
    rfl
  · rw [hpend]
    rfl
  · refine h.progress.carry hpc (fun _ _ => rfl) (Rpc.not_wakes hq.1) (fun _ _ => .inl (hp.2.2 _))
      (fun hread => ?_) id
    rw [hp.2.1] at hread
    cases hread

section
variable (h : RwInv qs s)
include h

omit [DecidableEq Q] in
private theorem RwInv.reblock (hpc : s.pc t = .event m .test) (hr : m.ready s.lock.nactive = false) :
    RwInv qs ({ s with wqs := s.wqs.block t }.goto t (.event m .unlock)) := by
  have hsl : s.lock.sl = some t := (h.counted.sl t).2 (by rw [hpc]; rfl)
  refine ⟨h.counted.step hpc (.inl rfl) hsl rfl rfl, h.held,
    point_step h.counted h.point hpc (.inl rfl) trivial (fun _ _ => rfl) fun _ _ => rfl,
      h.queues.goto rfl rfl hpc rfl,
    h.progress.carry hpc (fun u hu => update_of_ne hu ..) ⟨nofun, nofun⟩ (fun h0 => absurd h0 (not_ready_ne hr))
      (fun hread _ => ?_) id, h.failed⟩
  cases hread
  exact .inl (not_ready_neg hr)

omit [DecidableEq T] [DecidableEq Q] in
private theorem RwInv.knows (hpc : s.pc t = q) : q.Point s.lock (s.reads t) (s.writer t) := hpc ▸ h.point t

section

omit [DecidableEq Q]

private theorem RwInv.takeRead (hpc : s.pc t = .take .read) : RwInv qs { (s.setLock { s.lock with
        nactive := s.lock.nactive + 1, npendingReads := s.lock.npendingReads - 1, sl := none }).goto t .idle with
      reads := update s.reads t (s.reads t + 1) } := by
  have hn : 0 ≤ s.lock.nactive := ready_read.1 (h.knows hpc)
  have hpos : 1 ≤ s.lock.npendingReads := by
    rw [h.counted.reads]
    have hle := le_sum s.pc t (Rpc.pending .read)
    rw [hpc] at hle
    exact hle
  refine ⟨h.counted.step hpc (.inl rfl) rfl (Nat.sub_add_cancel hpos) rfl, h.held.takeRead hn,
    point_step h.counted h.point hpc (.inl rfl) trivial (fun u hu => update_of_ne hu ..) fun _ _ => rfl,
    h.queues.goto rfl rfl hpc rfl, h.progress.carry hpc (fun _ _ => rfl) ⟨nofun, nofun⟩ (fun h0 => ?_) nofun
      fun hneg => ?_, h.failed⟩
  · change s.lock.nactive + 1 = 0 at h0
    omega
  · exact hneg.imp (fun hneg => by omega) id

private theorem RwInv.takeWrite (hpc : s.pc t = .take .write) : RwInv qs { (s.setLock { s.lock with
        nactive := -1, npendingWrites := s.lock.npendingWrites - 1, sl := none }).goto t .idle with
      writer := update s.writer t true
      failed := s.failed || decide (s.lock.npendingWrites = 0) || decide (s.lock.nactive ≠ 0) } := by
  have hn : s.lock.nactive = 0 := ready_write.1 (h.knows hpc)
  have hpos : 1 ≤ s.lock.npendingWrites := by
    rw [h.counted.writes]
    have hle := le_sum s.pc t (Rpc.pending .write)
    rw [hpc] at hle
    exact hle
  refine ⟨h.counted.step hpc (.inl rfl) rfl rfl (Nat.sub_add_cancel hpos), h.held.takeWrite hn,
    point_step h.counted h.point hpc (.inl rfl) trivial (fun _ _ => rfl) fun u hu => update_of_ne hu ..,
    h.queues.goto rfl rfl hpc rfl, h.progress.carry hpc (fun _ _ => rfl) ⟨nofun, nofun⟩ nofun nofun fun _ => .inl ?_,
      ?_⟩
  · exact show (-1 : Int) < 0 by decide
  · have hne : ¬s.lock.npendingWrites = 0 := by omega
    simp [h.failed, hn, hne]

private theorem RwInv.unlockRead (hpc : s.pc t = .unlock .read) (hsl : s.lock.sl = none) :
    RwInv qs { (s.setLock { s.lock with nactive := s.lock.nactive - 1 }).goto t
        (if s.lock.nactive - 1 = 0 ∧ s.lock.npendingWrites > 0 then .wakeOne else .idle) with
      reads := update s.reads t (s.reads t - 1)
      failed := s.failed || decide (s.lock.nactive ≤ 0) } := by
  have hreads : 0 < s.reads t := h.knows hpc
  obtain ⟨-, -, hn⟩ := h.held.of_reads hreads
  have hfailed : (s.failed || decide (s.lock.nactive ≤ 0)) = false := by
    have hle : ¬s.lock.nactive ≤ 0 := by omega
    simp [h.failed, hle]
  have hmono : s.lock.nactive < 0 ∨ 0 < s.lock.npendingWrites → s.lock.nactive - 1 < 0 ∨ 0 < s.lock.npendingWrites :=
    fun hneg => hneg.imp (fun hneg => by omega) id
  split <;> refine ⟨h.counted.step hpc (.inr hsl) hsl rfl rfl, h.held.unlockRead hreads,
    point_step h.counted h.point hpc (.inr hsl) trivial (fun u hu => update_of_ne hu ..) fun _ _ => rfl,
    h.queues.goto rfl rfl hpc rfl,
    h.progress.carry hpc (fun _ _ => rfl) ⟨nofun, nofun⟩ (fun h0 hpos => ?_) nofun hmono, hfailed⟩
  next => exact .inr (.inl rfl)
  next hno => exact absurd ⟨h0, hpos⟩ hno

end

omit [DecidableEq T] [DecidableEq Q] in
private theorem RwInv.queued_of_pending (hsl : s.lock.sl = none) (hu : 0 < (s.pc t).pending m) :
    (s.pc t).queued = some m := by
  have hnot : (s.pc t).holdsSl = false := by
    rw [← Bool.not_eq_true, ← h.counted.sl, hsl]
    exact nofun
  revert hu hnot
  cases s.pc t with
  | wait q => cases q <;> cases m <;> decide
  | event m' q => cases q <;> cases m <;> cases m' <;> decide
  | check m' | take m' => exact nofun
  | _ => cases m <;> exact nofun

end

omit [Fintype T] [DecidableEq T] [DecidableEq Q] in
private theorem pending_of_queued (hp : p.queued = some m) : p.pending m = 1 := by
  cases p with
  | wait q => cases q <;> cases hp <;> rfl
  | event m' q => cases q <;> cases hp <;> cases m <;> rfl
  | _ => cases hp

omit [DecidableEq Q] in
private theorem RwInv.unlockWrite (h : RwInv qs s) (hpc : s.pc t = .unlock .write) (hsl : s.lock.sl = none) :
    RwInv qs { (s.setLock { s.lock with nactive := 0 }).goto t
      (if s.lock.npendingReads > 0 then .wakeAll else .wakeOne) with
      writer := update s.writer t false
      failed := s.failed || decide (s.lock.nactive ≠ -1) } := by
  have hwriter : s.writer t = true := h.knows hpc
  obtain ⟨-, -, hn⟩ := h.held.of_writer hwriter
  generalize hp : (if s.lock.npendingReads > 0 then Rpc.wakeAll else .wakeOne) = p
  have hp' : p.holdsSl = false ∧ (∀ m, p.pending m = 0) ∧ p.queued = none := by
    rw [← hp]
    split
    · exact ⟨rfl, fun m => by cases m <;> rfl, rfl⟩
    · exact ⟨rfl, fun m => by cases m <;> rfl, rfl⟩
  have hpoint : ∀ (l : UkRwlock T) r b, p.Point l r b := by
    rw [← hp]
    split <;> exact fun _ _ _ => trivial
  refine ⟨h.counted.step hpc (.inr hsl) ?_ ?_ ?_, h.held.unlockWrite hwriter,
    point_step h.counted h.point hpc (.inr hsl) (hpoint _ _ _) (fun _ _ => rfl) fun u hu => update_of_ne hu ..,
    h.queues.goto rfl rfl hpc hp'.2.2, ⟨fun _ hpos => ?_, fun u hq hblk => ?_⟩, ?_⟩
  · rw [hp'.1]
    exact hsl
  · rw [hp'.2.1]
    rfl
  · rw [hp'.2.1]
    rfl
  · split at hp
    next hr =>
      obtain ⟨u, hu⟩ := exists_pos_of_sum_pos (h.counted.reads ▸ hr)
      have hmem : u ∈ s.wqs.waiters (qs .read) := (h.queues.mem u .read).2 (h.queued_of_pending hsl hu)
      exact .inr (.inr ⟨t, (update_self ..).trans hp.symm, List.ne_nil_of_mem hmem⟩)
    next =>
      exact .inr (.inl ⟨t, (update_self ..).trans hp.symm⟩)
  · have hq0 : (update s.pc t p u).queued = some .read := hq
    have hut : u ≠ t := by
      rintro rfl
      rw [update_self, hp'.2.2] at hq0
      cases hq0
    have hq' : (s.pc u).queued = some .read := by
      rwa [update_of_ne hut] at hq0
    have hpend : 0 < (s.pc u).pending .read := by
      rw [pending_of_queued hq']
      exact Nat.one_pos
    have hr : s.lock.npendingReads > 0 := by
      rw [h.counted.reads]
      exact Nat.lt_of_lt_of_le hpend (le_sum s.pc u (Rpc.pending .read))
    rw [if_pos hr] at hp
    exact .inr (.inr ⟨t, (update_self ..).trans hp.symm⟩)
  · simp [h.failed, hn]

omit [DecidableEq T] [DecidableEq Q] in
private theorem RwInv.writer_waits (h : RwInv qs s) (h0 : s.lock.nactive = 0) (hpos : 0 < s.lock.npendingWrites) :
    (∃ u, (s.pc u).woken (s.wqs.blocked u) = true) ∨ s.wqs.waiters (qs .write) ≠ [] := by
  obtain ⟨u, hu⟩ := exists_pos_of_sum_pos (h.counted.writes ▸ hpos)
  have hpt := h.point u
  cases hpc : s.pc u with
  | check m | take m => exact .inl ⟨u, by rw [hpc]; rfl⟩
  | event m q =>
    rw [hpc] at hu hpt
    have hm : m = .write := by
      cases m with
      | read => cases q <;> cases hu
      | write => rfl
    subst hm
    by_cases hq : q = .add
    · subst hq
      exact absurd h0 (not_ready_ne hpt)
    · refine .inr (List.ne_nil_of_mem ((h.queues.mem u .write).2 ?_))
      rw [hpc]
      cases q with
      | add => exact absurd rfl hq
      | unlock | sleep | test => rfl
  | idle | lock | wait | unlock | wakeOne | wakeAll =>
    rw [hpc] at hu
    cases hu

omit [Fintype T] [DecidableEq T] [DecidableEq Q] in
private theorem woken_of_queued (hp : p.queued = some m) : p.woken false = true := by
  cases p with
  | wait q => cases q <;> first | rfl | cases hp
  | event m' q => cases q <;> first | rfl | cases hp
  | _ => cases hp

omit [DecidableEq Q] in
private theorem RwInv.wakeDone (h : RwInv qs s) (hpc : s.pc t = .wakeOne ∨ s.pc t = .wakeAll)
    (hw : w.waiters = s.wqs.waiters) (hq : w.wq = s.wqs.wq)
    (hwriters : s.lock.nactive = 0 → 0 < s.lock.npendingWrites → ∃ u, u ≠ t ∧
      ((s.pc u).woken (w.blocked u) = true ∨ s.pc u = .wakeOne))
    (hreaders : ∀ u, (s.pc u).queued = some .read → w.blocked u = true →
      s.lock.nactive < 0 ∨ 0 < s.lock.npendingWrites ∨ ∃ v, v ≠ t ∧ s.pc v = .wakeAll) :
    RwInv qs ({ s with wqs := w }.goto t .idle) := by
  have hp : (s.pc t).holdsSl = false ∧ (∀ m, (s.pc t).pending m = 0) ∧ (s.pc t).queued = none := by
    rcases hpc with hpc | hpc <;> rw [hpc]
    · exact ⟨rfl, fun m => by cases m <;> rfl, rfl⟩
    · exact ⟨rfl, fun m => by cases m <;> rfl, rfl⟩
  refine ⟨h.counted.goto rfl hp.1.symm fun m => ?_, h.held, fun u => ?_, h.queues.goto hw hq rfl hp.2.2.symm,
    ⟨fun h0 hpos => ?_, fun u hqu hblk => ?_⟩, h.failed⟩
  · rw [hp.2.1]
    cases m <;> rfl
  · exact forall_update
      trivial (fun u _ => h.point u) u
  · obtain ⟨u, hu, hwake⟩ := hwriters h0 hpos
    have hpcu : update s.pc t .idle u = s.pc u := update_of_ne hu ..
    rcases hwake with hwake | hwake
    · rw [← hpcu] at hwake
      exact .inl ⟨u, hwake⟩
    · exact .inr (.inl ⟨u, hpcu.trans hwake⟩)
  · have hq0 : (update s.pc t .idle u).queued = some .read := hqu
    have hut : u ≠ t := by
      rintro rfl
      rw [update_self] at hq0
      cases hq0
    rw [update_of_ne hut] at hq0
    rcases hreaders u hq0 hblk with h1 | h1 | ⟨v, hv, hall⟩
    · exact .inl h1
    · exact .inr (.inl h1)
    · exact .inr (.inr ⟨v, (update_of_ne hv ..).trans hall⟩)

private theorem RwInv.wakeOne (h : RwInv qs s) (hpc : s.pc t = .wakeOne) :
    RwInv qs (s.withWqs (s.wqs.wakeUpOne (qs .write)) fun s => s.goto t .idle) := by
  have hreaders : ∀ w : Waitqs T Q, (∀ u, w.blocked u = true → s.wqs.blocked u = true) →
    ∀ u, (s.pc u).queued = some .read →
      w.blocked u = true → s.lock.nactive < 0 ∨ 0 < s.lock.npendingWrites ∨ ∃ v, v ≠ t ∧ s.pc v = .wakeAll := by
    intro w hb u hq hblk
    rcases h.progress.readers u hq (hb u hblk) with h1 | h1 | ⟨v, hv⟩
    · exact .inl h1
    · exact .inr (.inl h1)
    · refine .inr (.inr ⟨v, ?_, hv⟩)
      rintro rfl
      rw [hpc] at hv
      cases hv
  have hne : ∀ {u b}, (s.pc u).woken b = true → u ≠ t := by
    rintro u b hu rfl
    rw [hpc] at hu
    cases hu
  cases hq : s.wqs.waiters (qs .write) with
  | nil =>
    rw [wakeUpOne_nil hq]
    refine h.wakeDone (.inl hpc) rfl rfl (fun h0 hpos => ?_) (hreaders _ fun _ => id)
    rcases h.writer_waits h0 hpos with ⟨u, hu⟩ | hwait
    · exact ⟨u, hne hu, .inl hu⟩
    · exact absurd hq hwait
  | cons v l =>
    rw [wakeUpOne_cons (h.queues.linked .write) hq]
    refine h.wakeDone (.inl hpc) rfl rfl (fun _ _ => ?_) (hreaders _ fun _ => blocked_of_wake)
    have hv : (s.pc v).woken false = true := woken_of_queued ((h.queues.mem v .write).1 (hq ▸ List.mem_cons_self ..))
    have hvb : (s.wqs.wake v).blocked v = false := update_self ..
    exact ⟨v, hne hv, .inl (hvb.symm ▸ hv)⟩

private theorem RwInv.wakeAll (h : RwInv qs s) (hpc : s.pc t = .wakeAll) :
    RwInv qs (s.withWqs (s.wqs.wakeUp (qs .read)) fun s => s.goto t .idle) := by
  have hne : ∀ {u b}, (s.pc u).woken b = true → u ≠ t := by
    rintro u b hu rfl
    rw [hpc] at hu
    cases hu
  rw [wakeUp_eq (h.queues.linked .read)]
  refine h.wakeDone (.inr hpc) rfl rfl (fun h0 hpos => ?_) fun u hq hblk => ?_
  · rcases h.progress.writers h0 hpos with ⟨u, hu⟩ | ⟨u, hu⟩ | ⟨-, -, hwait⟩
    · exact ⟨u, hne hu, .inl (Rpc.woken_mono (fun hb => (Bool.and_eq_true_iff.1 hb).1) hu)⟩
    · refine ⟨u, ?_, .inr hu⟩
      rintro rfl
      rw [hpc] at hu
      cases hu
    · obtain ⟨v, hv⟩ := List.exists_mem_of_ne_nil _ hwait
      have hv' : (s.pc v).woken false = true := woken_of_queued ((h.queues.mem v .read).1 hv)
      refine ⟨v, hne hv', .inl ?_⟩
      simpa [hv] using hv'
  · have hmem : u ∈ s.wqs.waiters (qs .read) := (h.queues.mem u .read).2 hq
    simp [hmem] at hblk

section

omit [DecidableEq T] [DecidableEq Q]

/-- The spin lock of the read/write lock is free, or the thread spins. -/
private theorem RwInv.spin {s' : RwState T Q} (h : RwInv qs s) (hstep : s.lock.sl = none → RwInv qs s') :
    RwInv qs (if s.lock.sl ≠ none then s else s') := by
  by_cases hsl : s.lock.sl = none
  · rw [if_neg (not_not.2 hsl)]
    exact hstep hsl
  · rw [if_pos hsl]
    exact h

/-- A thread that was woken takes the spin lock again. -/
private theorem RwInv.sleep {s' : RwState T Q} (h : RwInv qs s) (hstep : s.lock.sl = none → RwInv qs s') :
    RwInv qs (if s.wqs.blocked t = true ∨ s.lock.sl ≠ none then s else s') := by
  split
  next => exact h
  next hb => exact hstep (not_not.1 fun hsl => hb (.inr hsl))

end

/-- The points of a reader that waits for pending writers. -/
private theorem RwInv.waitStep (inj : Function.Injective qs) (h : RwInv qs s) {q : WaitPc} (hpc : s.pc t = .wait q)
    (hfree : s.pc t = .wait .add → s.wqs.wq t = none) : RwInv qs (s.exec qs t) := by
  unfold RwState.exec
  rw [hpc]
  cases q with
  | add =>
    exact h.enqueue inj (hfree hpc) hpc ⟨rfl, rfl, fun _ => rfl⟩ ⟨rfl, rfl⟩ (fun m => by cases m <;> rfl) trivial
      fun _ => .inr (h.knows hpc)
  | unlock => exact h.waitUnlock hpc
  | sleep => exact h.sleep fun hsl => h.waitSleep hpc hsl
  | remove =>
    exact h.dequeue inj (m := .read) hpc ⟨rfl, rfl⟩ ⟨rfl, rfl, fun _ => rfl⟩ (fun m => by cases m <;> rfl) trivial

/-- The points of a thread that waits until it can have the lock. -/
private theorem RwInv.eventStep (inj : Function.Injective qs) (h : RwInv qs s) {m : Mode} {q : EventPc}
    (hpc : s.pc t = .event m q) (hfree : s.pc t = .event m .add → s.wqs.wq t = none) : RwInv qs (s.exec qs t) := by
  unfold RwState.exec
  rw [hpc]
  cases q with
  | add =>
    have hr : m.ready s.lock.nactive = false := h.knows hpc
    dsimp only
    rw [hr, if_neg Bool.false_ne_true]
    refine h.enqueue inj (hfree hpc) hpc ⟨rfl, rfl, fun _ => rfl⟩ ⟨rfl, rfl⟩ (fun m' => by cases m' <;> rfl) trivial
      fun hm => ?_
    subst hm
    exact .inl (not_ready_neg hr)
  | unlock => exact h.eventUnlock hpc
  | sleep => exact h.sleep fun hsl => h.eventSleep hpc hsl
  | test =>
    dsimp only
    cases hr : m.ready s.lock.nactive with
    | true =>
      rw [if_pos rfl]
      exact h.dequeue inj (m := m) hpc ⟨rfl, rfl⟩ ⟨rfl, rfl, fun _ => rfl⟩ (fun m' => by cases m' <;> rfl) hr
    | false =>
      rw [if_neg Bool.false_ne_true]
      exact h.reblock hpc hr

/-- Every step of a thread keeps the invariant, if the thread is in no wait queue when it is about to enter one. -/
theorem RwInv.exec (inj : Function.Injective qs) (h : RwInv qs s)
    (hfree : s.pc t = .wait .add ∨ (∃ m, s.pc t = .event m .add) → s.wqs.wq t = none) : RwInv qs (s.exec qs t) := by
  cases hpc : s.pc t
  case wait q => exact h.waitStep inj hpc fun hadd => hfree (.inl hadd)
  case event m q => exact h.eventStep inj hpc fun hadd => hfree (.inr ⟨m, hadd⟩)
  all_goals
    unfold RwState.exec
    rw [hpc]
  case idle => exact h
  case lock m =>
    cases m with
    | read => exact h.spin fun hsl => h.lockRead hpc hsl
    | write => exact h.spin fun hsl => h.lockWrite hpc hsl
  case check m => exact h.checkStep hpc
  case take m =>
    cases m with
    | read => exact h.takeRead hpc
    | write => exact h.takeWrite hpc
  case unlock m =>
    cases m with
    | read => exact h.spin fun hsl => h.unlockRead hpc hsl
    | write => exact h.spin fun hsl => h.unlockWrite hpc hsl
  case wakeOne => exact h.wakeOne hpc
  case wakeAll => exact h.wakeAll hpc

section

omit [DecidableEq Q]

/-- A thread calls a lock or an unlock function. -/
theorem RwInv.enter (h : RwInv qs s) (hpc : s.pc t = .idle) (hp : (∃ m, p = .lock m) ∨ ∃ m, p = .unlock m)
    (hpt : p.Point s.lock (s.reads t) (s.writer t)) : RwInv qs (s.goto t p) := by
  have hout : p.holdsSl = false ∧ (∀ m, p.pending m = 0) ∧ p.queued = none := by
    rcases hp with ⟨m, rfl⟩ | ⟨m, rfl⟩
    · exact ⟨rfl, fun m => by cases m <;> rfl, rfl⟩
    · exact ⟨rfl, fun m => by cases m <;> rfl, rfl⟩
  refine ⟨h.counted.goto hpc hout.1 fun m => ?_, h.held,
    forall_update hpt fun u _ => h.point u,
    h.queues.goto rfl rfl hpc hout.2.2,
    h.progress.carry hpc (fun _ _ => rfl) ⟨nofun, nofun⟩ (fun h0 hpos => .inr (.inr ⟨h0, hpos, rfl, id⟩))
      (fun hq => ?_) id, h.failed⟩
  · rw [hout.2.1]
    cases m <;> rfl
  · rw [hout.2.2] at hq
    cases hq

private theorem RwInv.call (h : RwInv qs s) : RwInv qs (s.call t p) := by
  unfold RwState.call
  split
  case h_1 m hpc => exact h.enter hpc (.inl ⟨m, rfl⟩) trivial
  case h_2 hpc =>
    split
    · exact h.enter hpc (.inr ⟨.read, rfl⟩) ‹_›
    · exact h
  case h_3 hpc =>
    split
    · exact h.enter hpc (.inr ⟨.write, rfl⟩) ‹_›
    · exact h
  case h_4 => exact h

theorem RwInv.wake (h : RwInv qs s) : RwInv qs { s with wqs := s.wqs.wake t } :=
  ⟨h.counted, h.held, h.point, ⟨h.queues.mem, h.queues.ticket, h.queues.nodup⟩,
    h.progress.wake rfl fun _ => blocked_of_wake, h.failed⟩

end

omit [DecidableEq T] [DecidableEq Q] in
/-- A lock nobody uses satisfies the invariant. -/
theorem RwInv.init : RwInv qs (RwState.init : RwState T Q) := by
  refine ⟨⟨fun t => ?_, ?_, ?_⟩, .inl ⟨fun _ => rfl, ?_⟩, fun _ => trivial,
      ⟨fun t m => ?_, fun t m => ?_, fun _ => List.nodup_nil⟩,
    ⟨fun _ hpos => absurd hpos (Nat.lt_irrefl 0), fun t hq => ?_⟩, rfl⟩
  · exact ⟨nofun, nofun⟩
  · exact (Finset.sum_const_zero).symm
  · exact (Finset.sum_const_zero).symm
  · exact congrArg Int.ofNat Finset.sum_const_zero.symm
  · exact ⟨nofun, nofun⟩
  · exact ⟨nofun, nofun⟩
  · cases hq

end

/-! ### The lock by itself -/

section
variable [Fintype T] [DecidableEq T] {s : RwState T Mode}

omit [DecidableEq T] in
/-- The wait queues of the lock are the only ones, so a thread that adds its ticket has it in no queue. -/
private theorem RwInv.free (h : RwInv id s) (hpc : (s.pc t).queued = none) : s.wqs.wq t = none := by
  cases hq : s.wqs.wq t with
  | none => rfl
  | some m =>
    have hqueued := (h.queues.ticket t m).1 hq
    rw [hpc] at hqueued
    cases hqueued

/-- Every step of the system keeps the invariant. -/
theorem RwInv.step (h : RwInv id s) (a : RwAct T) : RwInv id (s.step id a) := by
  unfold RwState.step
  rw [if_neg (by rw [h.failed]; exact Bool.false_ne_true)]
  cases a with
  | call t p => exact h.call
  | exec t =>
    refine h.exec Function.injective_id fun hadd => h.free ?_
    rcases hadd with hadd | ⟨m, hadd⟩ <;> rw [hadd] <;> rfl
  | wake t => exact h.wake

def RwState.Holds (s : RwState T Mode) (t : T) : Prop := s.writer t = true ∨ 0 < s.reads t

/-- The thread is in a lock function and is counted as waiting. -/
def RwState.Waits (s : RwState T Mode) (t : T) : Prop := ∃ m, (s.pc t).pending m = 1

/-- A thread in an unlock function that is about to wake a waiting thread. -/
def RwState.AboutToWake (s : RwState T Mode) (t : T) : Prop :=
  s.pc t = .wakeOne ∧ s.wqs.waiters .write ≠ [] ∨ s.pc t = .wakeAll ∧ s.wqs.waiters .read ≠ []

/-- Exclusion, the meaning of `nactive`, no failed assertion, and no stuck thread. -/
structure RwOk (s : RwState T Mode) : Prop where
  writers : ∀ t u, s.writer t = true → s.writer u = true → u = t
  readers : ∀ t u, s.writer t = true → s.reads u = 0
  active : s.lock.nactive = if ∃ t, s.writer t = true then -1 else ((∑ t, s.reads t : Nat) : Int)
  failed : s.failed = false
  wakes : ∀ t, s.Waits t → (∀ u, ¬ s.Holds u) →
    (∃ u, s.Waits u ∧ (s.pc u).woken (s.wqs.blocked u) = true) ∨ ∃ u, s.AboutToWake u

omit [Fintype T] [DecidableEq T] in
private theorem RwState.Waits.of_woken {b : Bool} (h : (s.pc t).woken b = true) : s.Waits t := by
  unfold Waits
  cases hpc : s.pc t with
  | wait q => exact ⟨.read, rfl⟩
  | check m | event m q | take m => exact ⟨m, by cases m <;> rfl⟩
  | idle | lock | unlock | wakeOne | wakeAll =>
    rw [hpc] at h
    cases h

omit [DecidableEq T] in
private theorem RwInv.wakes_writers (h : RwInv id s) (h0 : s.lock.nactive = 0) (hpos : 0 < s.lock.npendingWrites) :
    (∃ u, s.Waits u ∧ (s.pc u).woken (s.wqs.blocked u) = true) ∨ ∃ u, s.AboutToWake u := by
  rcases h.progress.writers h0 hpos with ⟨u, hu⟩ | ⟨u, hu⟩ | ⟨u, hu⟩
  · exact .inl ⟨u, .of_woken hu, hu⟩
  · rcases h.writer_waits h0 hpos with ⟨v, hv⟩ | hwait
    · exact .inl ⟨v, .of_woken hv, hv⟩
    · exact .inr ⟨u, .inl ⟨hu, hwait⟩⟩
  · exact .inr ⟨u, .inr hu⟩

omit [DecidableEq T] in
/-- Without a holder and without waiting writers, a waiting reader goes on or is woken by the writer that left. -/
private theorem RwInv.wakes_readers (h : RwInv id s) (h0 : s.lock.nactive = 0) (hno : s.lock.npendingWrites = 0)
    (hw : s.Waits t) :
    (s.pc t).woken (s.wqs.blocked t) = true ∨ ∃ u, s.AboutToWake u := by
  have hpt := h.point t
  by_cases hq : (s.pc t).queued = some .read
  · cases hb : s.wqs.blocked t with
    | false => exact .inl (woken_of_queued hq)
    | true =>
      rcases h.progress.readers t hq hb with h1 | h1 | ⟨u, hu⟩
      · omega
      · omega
      · exact .inr ⟨u, .inr ⟨hu, List.ne_nil_of_mem ((h.queues.mem t .read).2 hq)⟩⟩
  · obtain ⟨m, hm⟩ := hw
    have hread : m = .read := by
      cases m with
      | read => rfl
      | write =>
        have hle := le_sum s.pc t (Rpc.pending .write)
        have hwrites := h.counted.writes
        omega
    subst hread
    left
    cases hpc : s.pc t with
    | idle | lock | unlock | wakeOne | wakeAll =>
      rw [hpc] at hm
      cases hm
    | wait q =>
      rw [hpc] at hpt hq
      cases q with
      | add => exact absurd hpt (Nat.not_lt.2 hno.le)
      | unlock | sleep => exact absurd rfl hq
      | remove => rfl
    | check m => rfl
    | event m q =>
      rw [hpc] at hpt hq hm
      have hread : m = .read := by
        cases m with
        | read => rfl
        | write => cases hm
      subst hread
      cases q with
      | add => exact absurd h0 (not_ready_ne hpt)
      | unlock | sleep => exact absurd rfl hq
      | test => rfl
    | take m => rfl

private theorem RwInv.ok (h : RwInv id s) : RwOk s := by
  refine ⟨fun t u ht hu => ?_, fun t u ht => ?_, ?_, h.failed, fun t hw hfree => ?_⟩
  · by_contra hne
    rw [(h.held.of_writer ht).1 u hne] at hu
    cases hu
  · exact (h.held.of_writer ht).2.1 u
  · by_cases hw : ∃ t, s.writer t = true
    · obtain ⟨t, ht⟩ := hw
      rw [if_pos ⟨t, ht⟩, (h.held.of_writer ht).2.2]
    · rw [if_neg hw]
      exact h.held.elim And.right fun ⟨t, ht, _⟩ => absurd ⟨t, ht⟩ hw
  · have h0 : s.lock.nactive = 0 := h.held.of_free hfree
    by_cases hpos : 0 < s.lock.npendingWrites
    · exact h.wakes_writers h0 hpos
    · rcases h.wakes_readers h0 (by omega) hw with hwoken | hwake
      · exact .inl ⟨t, hw, hwoken⟩
      · exact .inr hwake

/-- In every run of the lock, the lock excludes, `nactive` counts the holders, no assertion fails and no thread is
stuck. -/
theorem rwlock_excludes_wakes (as : List (RwAct T)) : Always (step id) RwOk (RwState.init : RwState T Mode) as :=
  run_always (I := RwInv id) (fun _ a h => h.step a) (fun _ h => h.ok) RwInv.init as

end

end Unikraft.Lock
