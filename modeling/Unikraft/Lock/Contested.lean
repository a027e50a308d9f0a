import Unikraft.Lock.Rwlock

/-!
# The mutex excludes and wakes

Each thread is at a point of a function of `mutex.h` or `mutex.c`, and a step is one access to the lock word, which is
the owner with the bit `_UK_MUTEX_CONTESTED`, or one section of the lock of the wait queue. `lock_count` has no bound:
the `int` overflows only when the owner of a recursive mutex has locked it 2^31 times. A thread blocks only after it
has read a word with the bit while it has the lock of the queue, and an owner that finds the bit wakes the queue after
it has stored the word without an owner.
-/

namespace Unikraft.Lock

structure LockWord (T : Type) where
  owner : Option T
  contested : Bool
  deriving DecidableEq

def LockWord.unowned {T : Type} : LockWord T := ⟨none, false⟩

/-- Where a thread is. `ret` has the result of the last `uk_mutex_trylock`, `loop` is the loop of
`_uk_mutex_lock_wait` with its variable `v`, and the points from `test` to `remove` are in `uk_waitq_wait_event`. -/
inductive Mpc (T : Type) where
  | ret (r : Option Bool)
  | lock
  | tryLock
  | count (r : Option Bool)
  | lockWait (v : LockWord T)
  | tryWait (v : LockWord T)
  | loop (v : LockWord T)
  | test (v : LockWord T)
  | lockq (v : LockWord T)
  | add (v : LockWord T)
  | sleep (v : LockWord T)
  | reblock (v : LockWord T)
  | remove (v : LockWord T)
  | unlock
  | release
  | store
  | wake

/-- `recursive` is `UK_MUTEX_CONFIG_RECURSE`, `wql` the thread that has the lock of the wait queue, and `depth` how
often each thread has the mutex. `failed` says that an assertion failed. -/
structure Mutex (T : Type) where
  recursive : Bool
  word : LockWord T
  lockCount : Nat
  wql : Option T
  wqs : Waitqs T Unit
  pc : T → Mpc T
  depth : T → Nat
  failed : Bool

namespace Mutex

variable {T : Type}

def init (recursive : Bool) : Mutex T := ⟨recursive, .unowned, 0, none, .init, fun _ => .ret none, fun _ => 0, false⟩

variable [DecidableEq T] (s : Mutex T)

def goto (t : T) (p : Mpc T) : Mutex T := { s with pc := Function.update s.pc t p }

def withWqs (w : Option (Waitqs T Unit)) (k : Mutex T → Mutex T) : Mutex T :=
  match w with
  | none => { s with failed := true }
  | some w => k { s with wqs := w }

def assert (b : Bool) : Mutex T := { s with failed := s.failed || !b }

def took (t : T) (n : Nat) : Mutex T :=
  { s with lockCount := n, depth := Function.update s.depth t (s.depth t + 1) }

def exec (t : T) : Mutex T :=
  match s.pc t with
  | .ret _ => s
  | .lock =>
    if s.word = .unowned then { s with word := ⟨some t, false⟩ }.goto t (.count none) else s.goto t (.lockWait s.word)
  | .tryLock =>
    if s.word = .unowned then { s with word := ⟨some t, false⟩ }.goto t (.count (some true))
      else s.goto t (.tryWait s.word)
  | .count r => ((s.assert (s.lockCount = 0)).took t 1).goto t (.ret r)
  | .lockWait v =>
    if s.recursive = true ∧ v.owner = some t then
      ((s.assert (0 < s.lockCount)).took t (s.lockCount + 1)).goto t (.ret none)
    else (s.assert (v.owner ≠ some t)).goto t (.loop v)
  | .tryWait v =>
    if s.recursive = true ∧ v.owner = some t then
      ((s.assert (0 < s.lockCount)).took t (s.lockCount + 1)).goto t (.ret (some true))
    else s.goto t (.ret (some false))
  | .loop v =>
    if v = .unowned then
      if s.word = v then { s with word := ⟨some t, false⟩ }.goto t (.count none) else s.goto t (.loop s.word)
    else if v.contested then s.goto t (.test v)
    -- the variable keeps the word without the bit when the exchange succeeds
    else if s.word = v then { s with word := { v with contested := true } }.goto t (.test v)
    else s.goto t (.loop s.word)
  | .test v => if s.word ≠ v then s.goto t (.loop s.word) else s.goto t (.lockq v)
  | .lockq v =>
    if s.wql ≠ none then s
    else if s.word ≠ v then s.goto t (.loop s.word)
    else { s with wql := some t }.goto t (.add v)
  | .add v => s.withWqs ((s.wqs.add () t).map (·.block t)) fun s => { s with wql := none }.goto t (.sleep v)
  | .sleep v =>
    if s.wqs.blocked t = true ∨ s.wql ≠ none then s
    else { s with wql := some t }.goto t (if s.word ≠ v then .remove s.word else .reblock v)
  | .reblock v => { s with wqs := s.wqs.block t, wql := none }.goto t (.sleep v)
  | .remove v => s.withWqs (s.wqs.remove t) fun s => { s with wql := none }.goto t (.loop v)
  | .unlock =>
    { (s.assert (decide (0 < s.lockCount) && decide (s.word.owner = some t))) with
      lockCount := s.lockCount - 1
      depth := Function.update s.depth t (s.depth t - 1) }.goto t
        (if s.lockCount - 1 = 0 then .release else .ret none)
  | .release => if s.word = ⟨some t, false⟩ then { s with word := .unowned }.goto t (.ret none) else s.goto t .store
  | .store => { s with word := .unowned }.goto t .wake
  | .wake => if s.wql ≠ none then s else s.withWqs (s.wqs.wakeUp ()) fun s => s.goto t (.ret none)

end Mutex

inductive MutexCall where
  | lock
  | tryLock
  | unlock

inductive MutexAct (T : Type) where
  | call (t : T) (c : MutexCall)
  | exec (t : T)
  | wake (t : T)

namespace Mutex

variable {T : Type} [DecidableEq T]

/-- A thread calls `uk_mutex_unlock` only if it has the mutex. -/
def call (s : Mutex T) (t : T) (c : MutexCall) : Mutex T :=
  match s.pc t, c with
  | .ret _, .lock => s.goto t .lock
  | .ret _, .tryLock => s.goto t .tryLock
  | .ret _, .unlock => if 0 < s.depth t then s.goto t .unlock else s
  | _, _ => s

def step (s : Mutex T) (a : MutexAct T) : Mutex T :=
  if s.failed then s
  else
    match a with
    | .call t c => s.call t c
    | .exec t => s.exec t
    | .wake t => { s with wqs := s.wqs.wake t }

end Mutex

open Function (update update_of_ne update_self)
open Mutex Runs Threads Waitqs

variable {T : Type}

/-- The thread owns the mutex without having returned from the lock function, or after `lock_count` became 0. -/
def Mpc.holds : Mpc T → Bool
  | .count _ | .release | .store => true
  | _ => false

def Mpc.holdsQ : Mpc T → Bool
  | .add _ | .reblock _ | .remove _ => true
  | _ => false

def Mpc.queued : Mpc T → Bool
  | .sleep _ | .reblock _ | .remove _ => true
  | _ => false

def Mpc.asleep : Mpc T → Bool → Bool
  | .add _, _ | .reblock _, _ => true
  | .sleep _, b | .remove _, b => b
  | _, _ => false

/-- The thread is in `_uk_mutex_unlock_wait` and has yet to wake the queue. -/
def Mpc.waker : Mpc T → Bool
  | .store | .wake => true
  | _ => false

/-- A word without an owner does not have the contested bit. -/
def LockWord.Fine (v : LockWord T) : Prop := v.owner = none → v.contested = false

def Mpc.Point (recursive : Bool) (t : T) (depth : Nat) : Mpc T → Prop
  | .ret r => r = some true → 0 < depth
  | .lock => recursive = false → depth = 0
  | .tryLock => True
  | .lockWait v => v.Fine ∧ (v.owner = some t ↔ 0 < depth) ∧ (recursive = false → depth = 0)
  | .tryWait v => v.owner = some t ↔ 0 < depth
  | .loop v | .remove v => depth = 0 ∧ v.Fine
  | .test v => depth = 0 ∧ v.owner.isSome = true
  | .lockq v | .add v | .sleep v | .reblock v => depth = 0 ∧ v.owner.isSome = true ∧ v.contested = true
  | .unlock => 0 < depth
  | .count _ | .release | .store | .wake => depth = 0

structure MutexOwner (word : LockWord T) (lockCount : Nat) (pc : T → Mpc T) (depth : T → Nat) : Prop where
  owner : ∀ t, word.owner = some t ↔ (pc t).holds = true ∨ 0 < depth t
  count : ∀ t, word.owner = some t → lockCount = depth t
  zero : word.owner = none → lockCount = 0
  fine : word.Fine

structure MutexQueue (w : Waitqs T Unit) (wql : Option T) (pc : T → Mpc T) : Prop where
  wql : ∀ t, wql = some t ↔ (pc t).holdsQ = true
  mem : ∀ t, t ∈ w.waiters () ↔ (pc t).queued = true
  ticket : ∀ t, w.wq t = some () ↔ (pc t).queued = true
  nodup : (w.waiters ()).Nodup

def MutexWakes (word : LockWord T) (blocked : T → Bool) (pc : T → Mpc T) : Prop :=
  ∀ t, (pc t).asleep (blocked t) = true → word.owner.isSome = true ∧ word.contested = true ∨ ∃ u, (pc u).waker = true

structure MutexInv (s : Mutex T) : Prop where
  owner : MutexOwner s.word s.lockCount s.pc s.depth
  point : ∀ t, (s.pc t).Point s.recursive t (s.depth t)
  queue : MutexQueue s.wqs s.wql s.pc
  wakes : MutexWakes s.word s.wqs.blocked s.pc
  failed : s.failed = false

section
variable [DecidableEq T] {word word' : LockWord T} {n : Nat} {pc : T → Mpc T} {depth : T → Nat} {t u : T}
    {p q : Mpc T}

section
variable (h : MutexOwner word n pc depth)
include h

private theorem MutexOwner.goto (hq : pc t = q) (hp : p.holds = q.holds) :
    MutexOwner word n (update pc t p) depth := by
  refine ⟨fun u => ?_, h.count, h.zero, h.fine⟩
  rw [apply_update Mpc.holds hq hp]
  exact h.owner u

omit [DecidableEq T] in
private theorem MutexOwner.other (hne : word.owner ≠ some u) : (pc u).holds = false ∧ depth u = 0 := by
  have hno := (h.owner u).not.1 hne
  push Not at hno
  exact ⟨Bool.eq_false_iff.2 hno.1, by omega⟩

private theorem MutexOwner.take (hw : word.owner = none) (hp : p.holds = true) :
    MutexOwner ⟨some t, false⟩ n (update pc t p) depth := by
  have hfree (u : T) := h.other (u := u) (by rw [hw]; exact nofun)
  refine ⟨forall_update (P := fun u (q : Mpc T) => some t = some u ↔ q.holds = true ∨ 0 < depth u)
    ⟨fun _ => .inl hp, fun _ => rfl⟩ fun u hu => ?_, fun u hu => ?_, nofun, nofun⟩
  · rw [(hfree u).1, (hfree u).2]
    exact ⟨fun he => absurd (Option.some.inj he).symm hu, fun hor => by rcases hor with hor | hor <;> cases hor⟩
  · rw [h.zero hw, (hfree _).2]

private theorem MutexOwner.drop (hw : word.owner = some t) (hd : depth t = 0) (hp : p.holds = false) :
    MutexOwner .unowned n (update pc t p) depth := by
  have hfree : ∀ u, (update pc t p u).holds = false ∧ depth u = 0 :=
    forall_update (P := fun u (q : Mpc T) => q.holds = false ∧ depth u = 0) ⟨hp, hd⟩ fun u hu =>
      h.other (by rw [hw]; exact fun he => hu (Option.some.inj he).symm)
  refine ⟨fun u => ?_, nofun, fun _ => ?_, fun _ => rfl⟩
  · rw [(hfree u).1, (hfree u).2]
    exact ⟨nofun, fun hor => by rcases hor with hor | hor <;> cases hor⟩
  · rw [h.count t hw, hd]

private theorem MutexOwner.contest (hw : word.owner.isSome = true) (hq : pc t = q)
    (hp : p.holds = q.holds) : MutexOwner { word with contested := true } n (update pc t p) depth := by
  have h' := h.goto hq hp
  refine ⟨h'.owner, h'.count, h'.zero, fun hn => ?_⟩
  have hn' : word.owner = none := hn
  rw [hn'] at hw
  cases hw

private theorem MutexOwner.nest (hw : word.owner = some t) {k : Nat} (hk : p.holds = true ∨ 0 < k) :
    MutexOwner word k (update pc t p) (update depth t k) := by
  refine ⟨fun u => ?_, fun u hu => ?_, fun hn => ?_, h.fine⟩
  · by_cases hu : u = t
    · subst hu
      rw [update_self, update_self]
      exact ⟨fun _ => hk, fun _ => hw⟩
    · rw [update_of_ne hu, update_of_ne hu]
      exact h.owner u
  · rw [hw] at hu
    cases hu
    rw [update_self]
  · rw [hw] at hn
    cases hn

/-! ### The wait queue -/

end

variable {w w' : Waitqs T Unit} {wql wql' : Option T}

private theorem MutexQueue.goto (h : MutexQueue w wql pc) (hw : w'.waiters = w.waiters) (hwq : w'.wq = w.wq)
    (hq : pc t = q) (hp : p.queued = q.queued) (hwql : ∀ u, wql' = some u ↔ (update pc t p u).holdsQ = true) :
    MutexQueue w' wql' (update pc t p) := by
  refine ⟨hwql, fun u => ?_, fun u => ?_, hw ▸ h.nodup⟩
  · rw [hw, apply_update Mpc.queued hq hp]
    exact h.mem u
  · rw [hwq, apply_update Mpc.queued hq hp]
    exact h.ticket u

private theorem MutexQueue.wql_goto (h : MutexQueue w wql pc) (hq : pc t = q) (hp : p.holdsQ = q.holdsQ) :
    ∀ u, wql = some u ↔ (update pc t p u).holdsQ = true := by
  intro u
  rw [apply_update Mpc.holdsQ hq hp]
  exact h.wql u

private theorem MutexQueue.wql_take (h : MutexQueue w none pc) (hp : p.holdsQ = true) :
    ∀ u, some t = some u ↔ (update pc t p u).holdsQ = true := by
  refine forall_update (P := fun u (q : Mpc T) => some t = some u ↔ q.holdsQ = true) ⟨fun _ => hp, fun _ => rfl⟩
    fun u hu => ?_
  rw [← h.wql u]
  exact ⟨fun he => absurd (Option.some.inj he).symm hu, nofun⟩

section
variable (h : MutexQueue w wql pc)
include h

private theorem MutexQueue.wql_drop (hq : pc t = q) (ht : q.holdsQ = true) (hp : p.holdsQ = false) :
    ∀ u, none = some u ↔ (update pc t p u).holdsQ = true := by
  refine forall_update (P := fun u (q : Mpc T) => none = some u ↔ q.holdsQ = true) ⟨nofun, fun hu => ?_⟩ fun u hu =>
    ⟨nofun, fun huq => ?_⟩
  · rw [hp] at hu
    cases hu
  · rw [← h.wql u, (h.wql t).2 (hq ▸ ht)] at huq
    exact absurd (Option.some.inj huq).symm hu

private theorem MutexQueue.add (hq : pc t = q) (ht : q.queued = false) (hp : p.queued = true)
    (hw : w'.waiters () = w.waiters () ++ [t]) (hwq : w'.wq = update w.wq t (some ()))
    (hwql : ∀ u, wql' = some u ↔ (update pc t p u).holdsQ = true) : MutexQueue w' wql' (update pc t p) := by
  have hnot : t ∉ w.waiters () := by
    rw [h.mem, hq, ht]
    exact Bool.false_ne_true
  refine ⟨hwql, forall_update (P := fun u (q : Mpc T) => u ∈ w'.waiters () ↔ q.queued = true) ?_ fun u hu => ?_,
    forall_update (P := fun u (q : Mpc T) => w'.wq u = some () ↔ q.queued = true) ?_ fun u hu => ?_, ?_⟩
  · rw [hw]
    exact ⟨fun _ => hp, fun _ => List.mem_append_right _ (List.mem_singleton.2 rfl)⟩
  · rw [hw, List.mem_append, List.mem_singleton, ← h.mem]
    exact ⟨fun hm => hm.resolve_right hu, .inl⟩
  · rw [hwq, update_self]
    exact ⟨fun _ => hp, fun _ => rfl⟩
  · rw [hwq, update_of_ne hu]
    exact h.ticket u
  · rw [hw]
    exact h.nodup.append (List.nodup_singleton t) (List.disjoint_singleton.2 hnot)

private theorem MutexQueue.remove (hp : p.queued = false) (hw : w'.waiters () = (w.waiters ()).erase t)
    (hwq : w'.wq = update w.wq t none) (hwql : ∀ u, wql' = some u ↔ (update pc t p u).holdsQ = true) :
    MutexQueue w' wql' (update pc t p) := by
  refine ⟨hwql, forall_update (P := fun u (q : Mpc T) => u ∈ w'.waiters () ↔ q.queued = true) ?_ fun u hu => ?_,
    forall_update (P := fun u (q : Mpc T) => w'.wq u = some () ↔ q.queued = true) ?_ fun u hu => ?_,
      hw ▸ h.nodup.erase t⟩
  · rw [hw, h.nodup.mem_erase_iff, hp]
    exact ⟨fun hm => absurd rfl hm.1, nofun⟩
  · rw [hw, h.nodup.mem_erase_iff, ← h.mem]
    exact ⟨And.right, fun hm => ⟨hu, hm⟩⟩
  · rw [hwq, update_self, hp]
    exact ⟨nofun, nofun⟩
  · rw [hwq, update_of_ne hu]
    exact h.ticket u

end

variable {blocked blocked' : T → Bool}

omit [DecidableEq T] in
private theorem Mpc.asleep_mono {b b' : Bool} (hb : b' = true → b = true) (h : p.asleep b' = true) :
    p.asleep b = true := by
  cases p with
  | sleep v | remove v => exact hb h
  | ret | lock | tryLock | count | lockWait | tryWait | loop | test | lockq | add | reblock | unlock | release | store
  | wake => exact h

theorem MutexWakes.step (h : MutexWakes word blocked pc) (hq : pc t = q)
    (hb : ∀ u, u ≠ t → blocked' u = true → blocked u = true)
    (hword : word.owner.isSome = true ∧ word.contested = true →
      word'.owner.isSome = true ∧ word'.contested = true ∨ p.waker = true) (hwaker : q.waker = true → p.waker = true)
    (hp : p.asleep (blocked' t) = true → q.asleep (blocked t) = true ∨ word'.owner.isSome = true ∧
      word'.contested = true) :
    MutexWakes word' blocked' (update pc t p) := by
  have hold : ∀ u, (pc u).asleep (blocked u) = true →
      word'.owner.isSome = true ∧ word'.contested = true ∨ ∃ u, (update pc t p u).waker = true := by
    intro u hu
    rcases h u hu with hw | ⟨y, hy⟩
    · exact (hword hw).imp id fun hp => ⟨t, by rwa [update_self]⟩
    · refine .inr ⟨y, ?_⟩
      by_cases hyt : y = t
      · subst hyt
        rw [update_self]
        exact hwaker (hq ▸ hy)
      · rwa [update_of_ne hyt]
  intro u hu
  by_cases hut : u = t
  · subst hut
    rw [update_self] at hu
    exact (hp hu).elim (fun hq' => hold u (hq.symm ▸ hq')) .inl
  · rw [update_of_ne hut] at hu
    exact hold u (Mpc.asleep_mono (hb u hut) hu)

variable {s s' : Mutex T}

private theorem MutexInv.move (h : MutexInv s) (hpc : s'.pc = update s.pc t p) (hrec : s'.recursive = s.recursive)
    (hdepth : ∀ u, u ≠ t → s'.depth u = s.depth u)
    (howner : MutexOwner s'.word s'.lockCount (update s.pc t p) s'.depth)
    (hpoint : p.Point s.recursive t (s'.depth t)) (hqueue : MutexQueue s'.wqs s'.wql (update s.pc t p))
    (hwakes : MutexWakes s'.word s'.wqs.blocked (update s.pc t p)) (hfailed : s'.failed = false) : MutexInv s' := by
  rw [← hpc] at howner hqueue hwakes
  refine ⟨howner, ?_, hqueue, hwakes, hfailed⟩
  rw [hpc, hrec]
  refine forall_update hpoint fun u hu => ?_
  rw [hdepth u hu]
  exact h.point u

private theorem MutexInv.goto (h : MutexInv s) (hq : s.pc t = q) (hholds : p.holds = q.holds)
    (hpoint : p.Point s.recursive t (s.depth t))
    (hqueue : p.holdsQ = q.holdsQ ∧ p.queued = q.queued) (hwaker : q.waker = true → p.waker = true)
    (hasleep : ∀ b, p.asleep b = false) : MutexInv (s.goto t p) := by
  refine h.move rfl rfl (fun _ _ => rfl) (h.owner.goto hq hholds) hpoint
    (h.queue.goto rfl rfl hq hqueue.2 (h.queue.wql_goto hq hqueue.1))
      (h.wakes.step hq (fun _ _ => id) .inl hwaker fun hp => ?_) h.failed
  rw [hasleep] at hp
  cases hp

variable {v : LockWord T} {r : Option Bool}

omit [DecidableEq T] in
private theorem LockWord.eq_unowned (hv : v.Fine) (hn : v.owner = none) : v = .unowned := by
  obtain ⟨owner, contested⟩ := v
  have hc : contested = false := hv hn
  cases hn
  rw [hc]
  rfl

omit [DecidableEq T] in
private theorem LockWord.owned (hv : v.Fine) (hne : v ≠ .unowned) : v.owner.isSome = true := by
  cases ho : v.owner with
  | some u => rfl
  | none => exact absurd (eq_unowned hv ho) hne

section
variable (h : MutexInv s)
include h

section

omit [DecidableEq T]

/-- At the points where it does not own the mutex in passing, a thread owns it if and only if it has locked it. -/
theorem MutexInv.owns_iff (hq : s.pc t = q) (hp : q.holds = false) : s.word.owner = some t ↔ 0 < s.depth t := by
  rw [h.owner.owner t, hq, hp]
  exact ⟨fun hor => hor.resolve_left Bool.false_ne_true, .inr⟩

private theorem MutexInv.owns (hq : s.pc t = q) (hp : q.holds = true) : s.word.owner = some t :=
  (h.owner.owner t).2 (.inl (hq ▸ hp))

private theorem MutexInv.knows (hq : s.pc t = q) : q.Point s.recursive t (s.depth t) := hq ▸ h.point t

end

private theorem MutexInv.take (hw : s.word = .unowned) (hq : s.pc t = q)
    (hpc : q.holdsQ = false ∧ q.queued = false ∧ q.waker = false) :
    MutexInv ({ s with word := ⟨some t, false⟩ }.goto t (.count r)) := by
  have hnone : s.word.owner = none := by rw [hw]; rfl
  refine h.move rfl rfl (fun _ _ => rfl) (h.owner.take hnone rfl) (h.owner.other (by rw [hnone]; exact nofun)).2
    (h.queue.goto rfl rfl hq hpc.2.1.symm (h.queue.wql_goto hq hpc.1.symm))
    (h.wakes.step hq (fun _ _ => id) (fun hc => ?_) (fun hk => ?_) nofun) h.failed
  · rw [hw] at hc
    cases hc.1
  · rw [hpc.2.2] at hk
    cases hk

private theorem MutexInv.lock (hpc : s.pc t = .lock) : MutexInv (s.exec t) := by
  unfold exec
  rw [hpc]
  by_cases hw : s.word = .unowned
  · rw [if_pos hw]
    exact h.take hw hpc ⟨rfl, rfl, rfl⟩
  · rw [if_neg hw]
    exact h.goto hpc rfl ⟨h.owner.fine, h.owns_iff hpc rfl, h.knows hpc⟩ ⟨rfl, rfl⟩ nofun fun _ => rfl

private theorem MutexInv.tryLock (hpc : s.pc t = .tryLock) : MutexInv (s.exec t) := by
  unfold exec
  rw [hpc]
  dsimp only
  split
  next hw =>
    exact h.take hw hpc ⟨rfl, rfl, rfl⟩
  next =>
    exact h.goto hpc rfl (h.owns_iff hpc rfl) ⟨rfl, rfl⟩ nofun fun _ => rfl

end

private theorem MutexInv.took {b : Bool} (h : MutexInv s) (hw : s.word.owner = some t) (hq : s.pc t = q)
    (hpc : q.holdsQ = false ∧ q.queued = false ∧ q.waker = false) (hb : b = true) (hn : n = s.depth t + 1) :
    MutexInv (((s.assert b).took t n).goto t (.ret r)) := by
  subst hn
  refine h.move rfl rfl (fun u hu => update_of_ne hu ..) (h.owner.nest hw (.inr (Nat.succ_pos _))) (fun _ => ?_)
    (h.queue.goto rfl rfl hq hpc.2.1.symm (h.queue.wql_goto hq hpc.1.symm))
      (h.wakes.step hq (fun _ _ => id) .inl (fun hk => ?_) nofun) ?_
  · change 0 < update s.depth t (s.depth t + 1) t
    rw [update_self]
    exact Nat.succ_pos _
  · rw [hpc.2.2] at hk
    cases hk
  · change (s.failed || !b) = false
    rw [h.failed, hb]
    rfl

section
variable (h : MutexInv s)
include h

private theorem MutexInv.count (hpc : s.pc t = .count r) : MutexInv (s.exec t) := by
  have hw := h.owns hpc rfl
  have hzero : s.depth t = 0 := h.knows hpc
  have hcount : s.lockCount = 0 := by rw [h.owner.count t hw, hzero]
  unfold exec
  rw [hpc]
  exact h.took hw hpc ⟨rfl, rfl, rfl⟩ (decide_eq_true hcount) (by rw [hzero])

private theorem MutexInv.relock (hq : s.pc t = q) (hp : q.holds = false)
    (hpc : q.holdsQ = false ∧ q.queued = false ∧ q.waker = false) (hv : v.owner = some t ↔ 0 < s.depth t)
    (hself : v.owner = some t) :
    MutexInv (((s.assert (0 < s.lockCount)).took t (s.lockCount + 1)).goto t (.ret r)) := by
  have hpos := hv.1 hself
  have hw := (h.owns_iff hq hp).2 hpos
  have hcount := h.owner.count t hw
  exact h.took hw hq hpc (decide_eq_true (hcount ▸ hpos)) (by rw [hcount])

private theorem MutexInv.lockWait (hpc : s.pc t = .lockWait v) : MutexInv (s.exec t) := by
  obtain ⟨hfine, hv, hrec⟩ := h.knows hpc
  unfold exec
  rw [hpc]
  dsimp only
  by_cases hself : s.recursive = true ∧ v.owner = some t
  · rw [if_pos hself]
    exact h.relock hpc rfl ⟨rfl, rfl, rfl⟩ hv hself.2
  · have hne : v.owner ≠ some t := by
      intro he
      cases hr : s.recursive with
      | true => exact hself ⟨hr, he⟩
      | false =>
        have hpos := hv.1 he
        have hzero := hrec hr
        omega
    have hassert : s.assert (decide (v.owner ≠ some t)) = s := by
      have hfalse : (s.failed || !decide (v.owner ≠ some t)) = s.failed := by
        rw [decide_eq_true hne, Bool.not_true, Bool.or_false]
      rw [assert, hfalse]
    have hzero : s.depth t = 0 := Nat.eq_zero_of_not_pos fun hpos => hne (hv.2 hpos)
    rw [if_neg hself, hassert]
    exact h.goto hpc rfl ⟨hzero, hfine⟩ ⟨rfl, rfl⟩ nofun fun _ => rfl

private theorem MutexInv.tryWait (hpc : s.pc t = .tryWait v) : MutexInv (s.exec t) := by
  unfold exec
  rw [hpc]
  dsimp only
  split
  next hself =>
    exact h.relock hpc rfl ⟨rfl, rfl, rfl⟩ (h.knows hpc) hself.2
  next =>
    exact h.goto hpc rfl nofun ⟨rfl, rfl⟩ nofun fun _ => rfl

private theorem MutexInv.loop (hpc : s.pc t = .loop v) : MutexInv (s.exec t) := by
  obtain ⟨hzero, hfine⟩ := h.knows hpc
  have hretry : MutexInv (s.goto t (.loop s.word)) :=
    h.goto hpc rfl ⟨hzero, h.owner.fine⟩ ⟨rfl, rfl⟩ nofun fun _ => rfl
  unfold exec
  rw [hpc]
  dsimp only
  by_cases hv : v = .unowned
  · rw [if_pos hv]
    split
    next hw =>
      exact h.take (hw.trans hv) hpc ⟨rfl, rfl, rfl⟩
    next =>
      exact hretry
  · have howned := LockWord.owned hfine hv
    rw [if_neg hv]
    split
    next =>
      exact h.goto hpc rfl ⟨hzero, howned⟩ ⟨rfl, rfl⟩ nofun fun _ => rfl
    next =>
      split
      next hw =>
        subst hw
        exact h.move rfl rfl (fun _ _ => rfl) (h.owner.contest howned hpc rfl) ⟨hzero, howned⟩
          (h.queue.goto rfl rfl hpc rfl (h.queue.wql_goto hpc rfl))
          (h.wakes.step hpc (fun _ _ => id) (fun _ => .inl ⟨howned, rfl⟩) nofun nofun) h.failed
      next =>
        exact hretry

private theorem MutexInv.test (hpc : s.pc t = .test v) (hv : v.contested = true ∨ s.word ≠ v) :
    MutexInv (s.exec t) := by
  have hpt := h.knows hpc
  unfold exec
  rw [hpc]
  dsimp only
  by_cases hw : s.word = v
  · rw [if_neg (not_not.2 hw)]
    exact h.goto hpc rfl ⟨hpt.1, hpt.2, hv.resolve_right (not_not.2 hw)⟩ ⟨rfl, rfl⟩ nofun fun _ => rfl
  · rw [if_pos hw]
    exact h.goto hpc rfl ⟨hpt.1, h.owner.fine⟩ ⟨rfl, rfl⟩ nofun fun _ => rfl

private theorem MutexInv.takeq (hwql : s.wql = none) (hq : s.pc t = q) (hpoint : p.Point s.recursive t (s.depth t))
    (hholds : p.holds = q.holds ∧ p.holdsQ = true ∧ p.queued = q.queued) (hwaker : q.waker = false)
    (hasleep : p.asleep (s.wqs.blocked t) = true → s.word.owner.isSome = true ∧ s.word.contested = true) :
    MutexInv ({ s with wql := some t }.goto t p) := by
  refine h.move rfl rfl (fun _ _ => rfl) (h.owner.goto hq hholds.1) hpoint
    (h.queue.goto rfl rfl hq hholds.2.2 (MutexQueue.wql_take (hwql ▸ h.queue) hholds.2.1))
    (h.wakes.step hq (fun _ _ => id) .inl (fun hk => ?_) fun hp => .inr (hasleep hp)) h.failed
  rw [hwaker] at hk
  cases hk

private theorem MutexInv.lockq (hpc : s.pc t = .lockq v) : MutexInv (s.exec t) := by
  have hpt := h.knows hpc
  unfold exec
  rw [hpc]
  dsimp only
  by_cases hq : s.wql = none
  · rw [if_neg (not_not.2 hq)]
    by_cases hw : s.word = v
    · rw [if_neg (not_not.2 hw)]
      exact h.takeq hq hpc hpt ⟨rfl, rfl, rfl⟩ rfl fun _ => hw ▸ hpt.2
    · rw [if_pos hw]
      exact h.goto hpc rfl ⟨hpt.1, h.owner.fine⟩ ⟨rfl, rfl⟩ nofun fun _ => rfl
  · rw [if_pos hq]
    exact h

end

omit [DecidableEq T] in
private theorem blocked_other [DecidableEq T] (hu : u ≠ t) (hb : update blocked t true u = true) :
    blocked u = true := by
  rwa [update_of_ne hu] at hb

section
variable (h : MutexInv s)
include h

private theorem MutexInv.add (hpc : s.pc t = .add v) : MutexInv (s.exec t) := by
  have hfree : s.wqs.wq t = none := by
    cases hq : s.wqs.wq t with
    | none => rfl
    | some q =>
      have hqueued := (h.queue.ticket t).1 hq
      rw [hpc] at hqueued
      cases hqueued
  have hpt := h.knows hpc
  unfold exec
  rw [hpc]
  rw [add_eq hfree, Option.map_some]
  exact h.move rfl rfl (fun _ _ => rfl) (h.owner.goto hpc rfl) hpt
    (h.queue.add hpc rfl rfl rfl rfl (h.queue.wql_drop hpc rfl rfl))
    (h.wakes.step hpc (fun _ => blocked_other) .inl nofun fun _ => .inl rfl) h.failed

private theorem MutexInv.sleep (hpc : s.pc t = .sleep v) : MutexInv (s.exec t) := by
  have hpt := h.knows hpc
  unfold exec
  rw [hpc]
  dsimp only
  by_cases hb : s.wqs.blocked t = true ∨ s.wql ≠ none
  · rw [if_pos hb]
    exact h
  · have hq : s.wql = none := not_not.1 fun hne => hb (.inr hne)
    rw [if_neg hb]
    by_cases hw : s.word = v
    · rw [if_neg (not_not.2 hw)]
      exact h.takeq hq hpc hpt ⟨rfl, rfl, rfl⟩ rfl fun _ => hw ▸ hpt.2
    · rw [if_pos hw]
      exact h.takeq hq hpc ⟨hpt.1, h.owner.fine⟩ ⟨rfl, rfl, rfl⟩ rfl fun hblk => absurd (.inl hblk) hb

private theorem MutexInv.reblock (hpc : s.pc t = .reblock v) : MutexInv (s.exec t) := by
  have hpt := h.knows hpc
  unfold exec
  rw [hpc]
  exact h.move rfl rfl (fun _ _ => rfl) (h.owner.goto hpc rfl) hpt
    (h.queue.goto rfl rfl hpc rfl (h.queue.wql_drop hpc rfl rfl))
    (h.wakes.step hpc (fun _ => blocked_other) .inl nofun fun _ => .inl rfl) h.failed

private theorem MutexInv.remove (hpc : s.pc t = .remove v) : MutexInv (s.exec t) := by
  have hticket : s.wqs.wq t = some () := (h.queue.ticket t).2 (by rw [hpc]; rfl)
  have hpt := h.knows hpc
  unfold exec
  rw [hpc]
  rw [remove_eq hticket]
  exact h.move rfl rfl (fun _ _ => rfl) (h.owner.goto hpc rfl) hpt
    (h.queue.remove rfl rfl rfl (h.queue.wql_drop hpc rfl rfl))
      (h.wakes.step hpc (fun _ _ => id) .inl nofun nofun) h.failed

private theorem MutexInv.unlock (hpc : s.pc t = .unlock) : MutexInv (s.exec t) := by
  have hpos : 0 < s.depth t := h.knows hpc
  have hw := (h.owns_iff hpc rfl).2 hpos
  have hcount := h.owner.count t hw
  have hassert : (s.failed || !(decide (0 < s.lockCount) && decide (s.word.owner = some t))) = false := by
    rw [h.failed, decide_eq_true (hcount ▸ hpos), decide_eq_true hw]
    rfl
  unfold exec
  rw [hpc]
  rw [hcount] at hassert ⊢
  have hdepth : ∀ u, u ≠ t → update s.depth t (s.depth t - 1) u = s.depth u := fun u hu => update_of_ne hu ..
  by_cases hlast : s.depth t - 1 = 0
  · rw [if_pos hlast]
    refine h.move rfl rfl hdepth (h.owner.nest hw (.inl rfl)) ?_
      (h.queue.goto rfl rfl hpc rfl (h.queue.wql_goto hpc rfl))
        (h.wakes.step hpc (fun _ _ => id) .inl nofun nofun) hassert
    change update s.depth t (s.depth t - 1) t = 0
    rw [update_self, hlast]
  · rw [if_neg hlast]
    exact h.move rfl rfl hdepth (h.owner.nest hw (.inr (Nat.pos_of_ne_zero hlast))) nofun
      (h.queue.goto rfl rfl hpc rfl (h.queue.wql_goto hpc rfl))
        (h.wakes.step hpc (fun _ _ => id) .inl nofun nofun) hassert

private theorem MutexInv.release (hpc : s.pc t = .release) : MutexInv (s.exec t) := by
  have hpt := h.knows hpc
  unfold exec
  rw [hpc]
  by_cases hw : s.word = ⟨some t, false⟩
  · rw [if_pos hw]
    refine h.move rfl rfl (fun _ _ => rfl) (h.owner.drop (h.owns hpc rfl) hpt rfl) nofun
      (h.queue.goto rfl rfl hpc rfl (h.queue.wql_goto hpc rfl))
        (h.wakes.step hpc (fun _ _ => id) (fun hc => ?_) nofun nofun) h.failed
    rw [hw] at hc
    cases hc.2
  · rw [if_neg hw]
    exact h.goto hpc rfl hpt ⟨rfl, rfl⟩ (fun _ => rfl) fun _ => rfl

private theorem MutexInv.store (hpc : s.pc t = .store) : MutexInv (s.exec t) := by
  have hpt := h.knows hpc
  unfold exec
  rw [hpc]
  exact h.move rfl rfl (fun _ _ => rfl) (h.owner.drop (h.owns hpc rfl) hpt rfl) hpt
    (h.queue.goto rfl rfl hpc rfl (h.queue.wql_goto hpc rfl))
    (h.wakes.step hpc (fun _ _ => id) (fun _ => .inr rfl) (fun _ => rfl) nofun) h.failed

private theorem MutexInv.wake (hpc : s.pc t = .wake) : MutexInv (s.exec t) := by
  have hlinked : s.wqs.Linked () := fun u hu => (h.queue.ticket u).2 ((h.queue.mem u).1 hu)
  unfold exec
  rw [hpc]
  by_cases hq : s.wql = none
  · rw [if_neg (not_not.2 hq), wakeUp_eq hlinked]
    refine h.move rfl rfl (fun _ _ => rfl) (h.owner.goto hpc rfl) nofun
      (h.queue.goto rfl rfl hpc rfl (h.queue.wql_goto hpc rfl)) (fun u hu => ?_) h.failed
    by_cases hut : u = t
    · subst hut
      rw [update_self] at hu
      cases hu
    rw [update_of_ne hut] at hu
    -- no thread is blocked in the queue, and none is about to block
    have hnoq : (s.pc u).holdsQ = false := by
      rw [← Bool.not_eq_true, ← h.queue.wql u, hq]
      exact nofun
    have hmem := h.queue.mem u
    cases hp : s.pc u with
    | sleep v =>
      rw [hp] at hu hmem
      have hb := (Bool.and_eq_true_iff.1 hu).2
      rw [decide_eq_true (hmem.2 rfl)] at hb
      cases hb
    | add v | reblock v | remove v =>
      rw [hp] at hnoq
      cases hnoq
    | ret | lock | tryLock | count | lockWait | tryWait | loop | test | lockq | unlock | release | store | wake =>
      rw [hp] at hu
      cases hu
  · rw [if_pos hq]
    exact h

/-- Every step of a thread keeps the invariant. -/
theorem MutexInv.exec (htest : ∀ v, s.pc t = .test v → v.contested = true ∨ s.word ≠ v) : MutexInv (s.exec t) := by
  cases hpc : s.pc t with
  | ret r =>
    unfold Mutex.exec
    rw [hpc]
    exact h
  | lock => exact h.lock hpc
  | tryLock => exact h.tryLock hpc
  | count r => exact h.count hpc
  | lockWait v => exact h.lockWait hpc
  | tryWait v => exact h.tryWait hpc
  | loop v => exact h.loop hpc
  | test v => exact h.test hpc (htest v hpc)
  | lockq v => exact h.lockq hpc
  | add v => exact h.add hpc
  | sleep v => exact h.sleep hpc
  | reblock v => exact h.reblock hpc
  | remove v => exact h.remove hpc
  | unlock => exact h.unlock hpc
  | release => exact h.release hpc
  | store => exact h.store hpc
  | wake => exact h.wake hpc

private theorem MutexInv.call {c : MutexCall} (hc : c = .lock → s.recursive = false → s.depth t = 0) :
    MutexInv (s.call t c) := by
  have henter : ∀ r p, s.pc t = .ret r → p = .lock ∨ p = .tryLock ∨ p = .unlock → p.Point s.recursive t (s.depth t) →
      MutexInv (s.goto t p) := by
    rintro r p hpc (rfl | rfl | rfl) hpoint <;> exact h.goto hpc rfl hpoint ⟨rfl, rfl⟩ nofun fun _ => rfl
  unfold Mutex.call
  split
  case h_1 r hpc => exact henter r .lock hpc (.inl rfl) (hc rfl)
  case h_2 r hpc => exact henter r .tryLock hpc (.inr (.inl rfl)) trivial
  case h_3 r hpc =>
    split
    case isTrue hpos => exact henter r .unlock hpc (.inr (.inr rfl)) hpos
    case isFalse => exact h
  case h_4 => exact h

end

omit [DecidableEq T] in
/-- A mutex nobody uses satisfies the invariant. -/
theorem MutexInv.init (recursive : Bool) : MutexInv (Mutex.init recursive : Mutex T) := by
  refine ⟨⟨fun t => ⟨nofun, fun hor => ?_⟩, nofun, fun _ => rfl, fun _ => rfl⟩, fun _ => nofun,
    ⟨fun _ => ⟨nofun, nofun⟩, fun _ => ⟨nofun, nofun⟩, fun _ => ⟨nofun, nofun⟩, List.nodup_nil⟩, nofun, rfl⟩
  rcases hor with hor | hor <;> cases hor

/-- A thread that has a mutex that is not recursive does not call `uk_mutex_lock`, and when a thread has set the
contested bit, the lock word that it reads next is not the one it had before without the bit. -/
def Mutex.fine (s : Mutex T) : MutexAct T → Bool
  | .call t .lock => s.recursive || decide (s.depth t = 0)
  | .exec t =>
    match s.pc t with
    | .test v => v.contested || decide (s.word ≠ v)
    | _ => true
  | _ => true

/-- Every step of the system keeps the invariant. -/
theorem MutexInv.step (h : MutexInv s) {a : MutexAct T} (ha : s.fine a = true) : MutexInv (s.step a) := by
  unfold Mutex.step
  rw [if_neg (by rw [h.failed]; exact Bool.false_ne_true)]
  cases a with
  | call t c =>
    refine h.call fun hc hrec => ?_
    subst hc
    simpa [fine, hrec] using ha
  | exec t =>
    refine h.exec fun v hpc => ?_
    simpa [fine, hpc] using ha
  | wake t =>
    exact ⟨h.owner, h.point, ⟨h.queue.wql, h.queue.mem, h.queue.ticket, h.queue.nodup⟩,
      fun u hu => h.wakes u (Mpc.asleep_mono blocked_of_wake hu), h.failed⟩

omit [DecidableEq T] in
/-- The thread has the mutex, or is at a point where it has taken it or not yet given it up. -/
def Mutex.Owns (s : Mutex T) (t : T) : Prop := 0 < s.depth t ∨ (s.pc t).holds = true

structure MutexOk (s : Mutex T) : Prop where
  exclusive : ∀ t u, s.Owns t → s.Owns u → u = t
  word : ∀ t, s.Owns t → s.word.owner = some t
  count : ∀ t, s.word.owner = some t → s.lockCount = s.depth t
  tryLock : ∀ t, s.pc t = .ret (some true) → s.word.owner = some t
  failed : s.failed = false
  wakes : ∀ t ∈ s.wqs.waiters (), s.wqs.blocked t = true →
    s.word.owner.isSome = true ∧ s.word.contested = true ∨ ∃ u, (s.pc u).waker = true

omit [DecidableEq T] in
private theorem MutexInv.ok (h : MutexInv s) : MutexOk s := by
  have hword : ∀ t, s.Owns t → s.word.owner = some t := fun t ht => (h.owner.owner t).2 ht.symm
  refine ⟨fun t u ht hu => ?_, hword, h.owner.count, fun t ht => ?_, h.failed, fun t ht hb => ?_⟩
  · have hsame := (hword t ht).symm.trans (hword u hu)
    exact (Option.some.inj hsame).symm
  · have hpt := h.point t
    rw [ht] at hpt
    exact hword t (.inl (hpt rfl))
  · refine h.wakes t ?_
    have hqueued := (h.queue.mem t).1 ht
    rw [hb]
    cases hpc : s.pc t with
    | sleep v | reblock v | remove v => rfl
    | ret | lock | tryLock | count | lockWait | tryWait | loop | test | lockq | add | unlock | release | store
    | wake =>
      rw [hpc] at hqueued
      cases hqueued

/-- In every run that meets the condition the mutex excludes and wakes. -/
theorem mutex_excludes_wakes {recursive : Bool} {as : List (MutexAct T)}
    (h : Meets step (fun s a => s.fine a = true) (Mutex.init recursive : Mutex T) as) :
    Always step MutexOk (Mutex.init recursive : Mutex T) as :=
  h.always (fun _ _ hs ha => hs.step ha) (fun _ hs => hs.ok) (MutexInv.init recursive)

end

theorem mutex_excludes_wakes_two : Always step MutexOk (Mutex.init false : Mutex (Fin 2))
    ([.call 0 .lock, .exec 0, .exec 0, .call 1 .lock] ++ List.replicate 8 (.exec 1) ++ [.call 0 .unlock] ++
      List.replicate 4 (.exec 0) ++ List.replicate 4 (.exec 1)) :=
  mutex_excludes_wakes (by decide +kernel)

/-- The owner releases the mutex and takes it again between the exchange that sets the contested bit and the next load
of the thread that waits: that thread blocks although the word does not have the bit. -/
theorem not_mutex_excludes_wakes : ¬ Always step MutexOk (Mutex.init false : Mutex (Fin 2))
    [.call 0 .lock, .exec 0, .exec 0, .call 1 .lock, .exec 1, .exec 1, .exec 1, .call 0 .unlock, .exec 0, .exec 0,
      .exec 0, .exec 0,
      .call 0 .lock, .exec 0, .exec 0, .exec 1, .exec 1, .exec 1] := by
  intro h
  have hbad := h.last.wakes 1 (by decide +kernel) (by decide +kernel)
  revert hbad
  decide +kernel

end Unikraft.Lock
