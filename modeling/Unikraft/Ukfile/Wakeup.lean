import Unikraft.Lock.Steps

/-!
# Poll queues

Threads in `uk_pollq_poll_until` without a deadline and in `uk_pollq_set`, `uk_pollq_clear` and `uk_pollq_assign` on
one managed queue. A step is one access to `events` or `waitmask`, one section of the lock of `waitq`, or a step of
the reader-writer lock `waitlock`. In `pollq_propagate` the thread calls into other queues, where it may wait too;
those are `other`. For each event that a sleeping thread requests and that is set, some thread that has set it has not
yet walked the queue.
-/

namespace Unikraft.Ukfile

open Lock

abbrev Event := BitVec 32

inductive PollQueue where
  | lock (m : Mode)
  | waitq
  | other
  deriving DecidableEq

/-- Points of `_uk_pollq_wait`: `uk_or` on `waitmask`, `uk_waitq_set_cookie`, the section that adds and blocks,
`unlock_fn`, `uk_sched_yield`, `lock_fn`, and the section that removes the ticket. -/
inductive PollWait where
  | mark
  | cookie
  | add
  | unlock
  | sleep
  | lock
  | remove
  deriving DecidableEq

/-- Points of `pollq_notify_n`; `prune` has the union of the cookies that the walk has seen. -/
inductive Notify where
  | lock
  | test
  | walk
  | prune (seen : Event)
  | unlock
  deriving DecidableEq

/-- Where a thread is; `ret` is outside, with the result of the last call. -/
inductive Ppc where
  | ret (ev : Event)
  | poll (req : Event)
  | lock (req : Event)
  | test (req : Event)
  | wait (req : Event) (p : PollWait)
  | unlock (ev : Event)
  | set (ev : Event)
  | clear (clr : Event)
  | assign (val : Event)
  | notify (set prev : Event) (p : Notify)
  | propagate (prev : Event)
  | contend (prev : Event)
  deriving DecidableEq

/-- `rw` is `waitlock`, with all wait queues and tickets. -/
structure Pollq (T : Type) where
  rw : RwState T PollQueue
  events : Event
  waitmask : Event
  cookie : T → Event
  pc : T → Ppc

namespace Pollq

variable {T : Type}

def init (ev : Event) : Pollq T := ⟨.init, ev, 0, fun _ => 0, fun _ => .ret 0⟩

variable [DecidableEq T] (s : Pollq T)

def goto (t : T) (p : Ppc) : Pollq T := { s with pc := Function.update s.pc t p }

def enter (t : T) (r : Rpc) (p : Ppc) : Pollq T := { s with rw := s.rw.goto t r }.goto t p

def inLock (t : T) (p : Ppc) : Pollq T :=
  let rw := s.rw.exec .lock t
  if rw.pc t = .idle then { s with rw := rw }.goto t p else { s with rw := rw }

def withWqs (w : Option (Waitqs T PollQueue)) (k : Pollq T → Pollq T) : Pollq T :=
  match w with
  | none => { s with rw := { s.rw with failed := true } }
  | some w => k { s with rw := { s.rw with wqs := w } }

def seen : Event := (s.rw.wqs.waiters .waitq).foldl (fun ev u => ev ||| s.cookie u) 0

def exec (t : T) : Pollq T :=
  match s.pc t with
  | .ret _ => s
  | .poll req =>
    if s.events &&& req ≠ 0 then s.goto t (.ret (s.events &&& req)) else s.enter t (.lock .read) (.lock req)
  | .lock req => s.inLock t (.test req)
  | .test req =>
    if s.events &&& req ≠ 0 then s.enter t (.unlock .read) (.unlock (s.events &&& req))
      else s.goto t (.wait req .mark)
  | .wait req .mark => { s with waitmask := s.waitmask ||| req }.goto t (.wait req .cookie)
  | .wait req .cookie => { s with cookie := Function.update s.cookie t req }.goto t (.wait req .add)
  | .wait req .add =>
    s.withWqs ((s.rw.wqs.add .waitq t).map (·.block t)) fun s => s.enter t (.unlock .read) (.wait req .unlock)
  | .wait req .unlock => s.inLock t (.wait req .sleep)
  | .wait req .sleep => if s.rw.wqs.blocked t then s else s.enter t (.lock .read) (.wait req .lock)
  | .wait req .lock => s.inLock t (.wait req .remove)
  | .wait req .remove => s.withWqs (s.rw.wqs.remove t) fun s => s.goto t (.test req)
  | .unlock ev => s.inLock t (.ret ev)
  | .set ev =>
    if ev = 0 then s.goto t (.ret 0)
    else { s with events := s.events ||| ev }.enter t (.lock .write) (.notify ev s.events .lock)
  | .clear clr => { s with events := s.events &&& ~~~clr }.goto t (.propagate s.events)
  | .assign val =>
    let prev := s.events
    let s := { s with events := val }
    if val &&& ~~~prev ≠ 0 then s.enter t (.lock .write) (.notify (val &&& ~~~prev) prev .lock)
    else if prev &&& ~~~val ≠ 0 then s.goto t (.propagate prev)
    else s.goto t (.ret prev)
  | .notify set prev .lock => s.inLock t (.notify set prev .test)
  | .notify set prev .test =>
    if s.waitmask &&& set ≠ 0 then s.goto t (.notify set prev .walk)
      else s.enter t (.unlock .write) (.notify set prev .unlock)
  | .notify set prev .walk =>
    s.withWqs (s.rw.wqs.wakeUpIf .waitq fun u => decide (s.cookie u &&& set ≠ 0)) fun s =>
      s.goto t (.notify set prev (.prune s.seen))
  | .notify set prev (.prune seen) => { s with waitmask := seen }.enter t (.unlock .write) (.notify set prev .unlock)
  | .notify _ prev .unlock => s.inLock t (.propagate prev)
  | .propagate prev => s.goto t (.ret prev)
  | .contend prev =>
    if s.rw.wqs.blocked t then s else s.withWqs (s.rw.wqs.remove t) fun s => s.goto t (.propagate prev)

end Pollq

inductive PollCall where
  | poll (req : Event)
  | set (ev : Event)
  | clear (clr : Event)
  | assign (val : Event)

def PollCall.pc : PollCall → Ppc
  | .poll req => .poll req
  | .set ev => .set ev
  | .clear clr => .clear clr
  | .assign val => .assign val

/-- A thread calls a function, makes a step, has to wait during the propagation, or is woken by other code. -/
inductive PollAct (T : Type) where
  | call (t : T) (c : PollCall)
  | exec (t : T)
  | contend (t : T)
  | wake (t : T)

namespace Pollq

variable {T : Type} [DecidableEq T]

def call (s : Pollq T) (t : T) (c : PollCall) : Pollq T :=
  match s.pc t with
  | .ret _ => s.goto t c.pc
  | _ => s

def contend (s : Pollq T) (t : T) : Pollq T :=
  match s.pc t with
  | .propagate prev => s.withWqs ((s.rw.wqs.add .other t).map (·.block t)) fun s => s.goto t (.contend prev)
  | _ => s

def step (s : Pollq T) (a : PollAct T) : Pollq T :=
  if s.rw.failed then s
  else
    match a with
    | .call t c => s.call t c
    | .exec t => s.exec t
    | .contend t => s.contend t
    | .wake t => { s with rw := { s.rw with wqs := s.rw.wqs.wake t } }

end Pollq

open Function (update update_eq_self update_of_ne update_self)
open BitVec Pollq Runs RwState Waitqs

/-! ### Events as sets -/

def Sub (a b : Event) : Prop := ∀ i, a.getLsbD i = true → b.getLsbD i = true

private theorem sub_refl (a : Event) : Sub a a := fun _ => id

variable {a b : Event}

private theorem Sub.or_left (h : Sub a b) (c : Event) : Sub a (b ||| c) := fun i hi => by
  rw [getLsbD_or, h i hi, Bool.true_or]

private theorem sub_or_right (a b : Event) : Sub b (a ||| b) := fun i hi => by
  rw [getLsbD_or, hi, Bool.or_true]

private theorem Sub.and_not_eq_zero (h : Sub a b) : a &&& ~~~b = 0 := by
  apply eq_of_getLsbD_eq
  intro i hi
  rw [getLsbD_and, getLsbD_not]
  cases ha : a.getLsbD i with
  | true => simp [h i ha]
  | false => simp

theorem and_ne_zero_iff : a &&& b ≠ 0 ↔ ∃ i, a.getLsbD i = true ∧ b.getLsbD i = true := by
  constructor
  · intro h
    by_contra hno
    push Not at hno
    apply h
    apply eq_of_getLsbD_eq
    intro i _
    rw [getLsbD_and]
    cases ha : a.getLsbD i with
    | true => simp [hno i ha]
    | false => simp
  · rintro ⟨i, ha, hb⟩ h0
    have hi : (a &&& b).getLsbD i = true := by rw [getLsbD_and, ha, hb]; rfl
    rw [h0] at hi
    simp at hi

inductive View where
  | none
  | polled (req : Event)
  | marked (req : Event)
  | ready (req : Event)
  | waiting (req : Event)
  | notifying (set : Event)
  | pruning (seen : Event)
  | other

def Ppc.view : Ppc → View
  | .wait req .mark => .polled req
  | .wait req .cookie => .marked req
  | .wait req .add => .ready req
  | .wait req .unlock | .wait req .sleep | .wait req .lock | .wait req .remove => .waiting req
  | .notify ev _ .lock | .notify ev _ .test | .notify ev _ .walk => .notifying ev
  | .notify _ _ (.prune seen) => .pruning seen
  | .contend _ => .other
  | _ => .none

def View.marks : View → Option Event
  | .marked req | .ready req | .waiting req => some req
  | _ => Option.none

def View.cookie : View → Option Event
  | .ready req | .waiting req => some req
  | _ => Option.none

/-- The request of a thread that sleeps or is about to, since it has seen none of its events. -/
def View.asleep : View → Bool → Option Event
  | .polled req, _ | .marked req, _ | .ready req, _ => some req
  | .waiting req, true => some req
  | _, _ => Option.none

/-- The events that the thread has set and has not yet walked the queue for. -/
def View.notifies : View → Event
  | .notifying set => set
  | _ => 0

variable {T : Type} {t : T} {x y : View} {req : Event}

section

structure Tickets (w : Waitqs T PollQueue) (v : T → View) : Prop where
  mem : ∀ t, t ∈ w.waiters .waitq ↔ ∃ req, v t = .waiting req
  ticket : ∀ t, w.wq t = some .waitq ↔ ∃ req, v t = .waiting req
  other : ∀ t, w.wq t = some .other ↔ v t = .other
  nodup : (w.waiters .waitq).Nodup

structure Masks (mask : Event) (cookie : T → Event) (v : T → View) : Prop where
  cookie : ∀ t req, (v t).cookie = some req → cookie t = req
  mask : ∀ t req, (v t).marks = some req → Sub req mask
  seen : ∀ t seen, v t = .pruning seen → ∀ u req, v u = .waiting req → Sub req seen

def Wakes (events : Event) (blocked : T → Bool) (v : T → View) : Prop :=
  ∀ t req i, (v t).asleep (blocked t) = some req → req.getLsbD i = true → events.getLsbD i = true →
    ∃ u, (v u).notifies.getLsbD i = true

variable [DecidableEq T] {w w' : Waitqs T PollQueue} {v : T → View}

section
variable (h : Tickets w v) {l : List T}
include h

omit [DecidableEq T] in
private theorem Tickets.congr (hw : w'.waiters .waitq = w.waiters .waitq)
    (hq : ∀ u, w'.wq u = some .waitq ↔ w.wq u = some .waitq)
    (ho : ∀ u, w'.wq u = some .other ↔ w.wq u = some .other) :
    Tickets w' v := by
  refine ⟨fun u => ?_, fun u => (hq u).trans (h.ticket u), fun u => (ho u).trans (h.other u), ?_⟩
  · rw [hw]
    exact h.mem u
  · rw [hw]
    exact h.nodup

private theorem Tickets.goto (hv : v t = y) (hx : ∀ req, x = .waiting req ↔ y = .waiting req)
    (ho : x = .other ↔ y = .other) :
    Tickets w (update v t x) := by
  have hwait := Threads.apply_update (fun x => ∃ req, x = View.waiting req) hv (propext (exists_congr hx))
  have hother := Threads.apply_update (· = View.other) hv (propext ho)
  refine ⟨fun u => ?_, fun u => ?_, fun u => ?_, h.nodup⟩
  · rw [hwait]
    exact h.mem u
  · rw [hwait]
    exact h.ticket u
  · rw [hother]
    exact h.other u

private theorem Tickets.change {o : Option PollQueue} (hq : w'.wq = update w.wq t o)
    (ht : o = some .waitq ↔ ∃ req, x = .waiting req) (ho : o = some .other ↔ x = .other)
    (hx : t ∈ w'.waiters .waitq ↔ ∃ req, x = .waiting req)
    (hl : ∀ u, u ≠ t → (u ∈ w'.waiters .waitq ↔ u ∈ w.waiters .waitq))
    (hnodup : (w'.waiters .waitq).Nodup) : Tickets w' (update v t x) := by
  refine ⟨fun u => ?_, fun u => ?_, fun u => ?_, hnodup⟩
  · by_cases hu : u = t
    · subst hu
      rwa [update_self]
    · rw [update_of_ne hu, hl u hu]
      exact h.mem u
  · rw [hq]
    by_cases hu : u = t
    · subst hu
      rwa [update_self, update_self]
    · rw [update_of_ne hu, update_of_ne hu]
      exact h.ticket u
  · rw [hq]
    by_cases hu : u = t
    · subst hu
      rwa [update_self, update_self]
    · rw [update_of_ne hu, update_of_ne hu]
      exact h.other u

private theorem Tickets.add (hfree : w.wq t = none) :
    Tickets { w with waiters := update w.waiters .waitq (w.waiters .waitq ++ [t])
                     wq := update w.wq t (some .waitq) } (update v t (.waiting req)) := by
  have hnot : t ∉ w.waiters .waitq := by
    intro hmem
    rw [h.mem, ← h.ticket, hfree] at hmem
    cases hmem
  refine h.change rfl ⟨fun _ => ⟨req, rfl⟩, fun _ => rfl⟩ ⟨nofun, nofun⟩ ?_ (fun u hu => ?_) ?_ <;> dsimp only <;>
    rw [update_self]
  · exact ⟨fun _ => ⟨req, rfl⟩, fun _ => List.mem_append_right _ (List.mem_singleton.2 rfl)⟩
  · rw [List.mem_append, List.mem_singleton]
    exact ⟨fun hm => hm.resolve_right hu, .inl⟩
  · exact h.nodup.append (List.nodup_singleton t) (List.disjoint_singleton.2 hnot)

private theorem Tickets.remove (hx : ∀ req, x ≠ .waiting req) (ho : x ≠ .other) :
    Tickets { w with waiters := update w.waiters .waitq ((w.waiters .waitq).erase t)
                     wq := update w.wq t none } (update v t x) := by
  refine h.change rfl ⟨nofun, fun ⟨req, he⟩ => absurd he (hx req)⟩
    ⟨nofun, fun he => absurd he ho⟩ ?_ (fun u hu => ?_) ?_ <;>
    dsimp only <;> rw [update_self]
  · rw [h.nodup.mem_erase_iff]
    exact ⟨fun hm => absurd rfl hm.1, fun ⟨req, he⟩ => absurd he (hx req)⟩
  · rw [h.nodup.mem_erase_iff]
    exact ⟨And.right, fun hm => ⟨hu, hm⟩⟩
  · exact h.nodup.erase t

private theorem Tickets.addOther (hfree : w.wq t = none) :
    Tickets { w with waiters := update w.waiters .other l, wq := update w.wq t (some .other) }
      (update v t .other) := by
  refine h.change rfl ⟨nofun, nofun⟩ ⟨fun _ => rfl, fun _ => rfl⟩ ⟨fun hmem => ?_, nofun⟩ (fun u _ => Iff.rfl) h.nodup
  have hq := (h.ticket t).2 ((h.mem t).1 hmem)
  rw [hfree] at hq
  cases hq

private theorem Tickets.removeOther (ht : v t = .other) :
    Tickets { w with waiters := update w.waiters .other l, wq := update w.wq t none }
      (update v t .none) := by
  refine h.change rfl ⟨nofun, nofun⟩ ⟨nofun, nofun⟩ ⟨fun hmem => ?_, nofun⟩ (fun u _ => Iff.rfl) h.nodup
  obtain ⟨req, hv⟩ := (h.mem t).1 hmem
  rw [ht] at hv
  cases hv

/-! ### The mask and the wake-ups -/

end

variable {mask mask' events events' : Event} {cookie cookie' : T → Event} {blocked blocked' : T → Bool}

/-- The mask of the queue keeps what the waiting threads ask for. -/
theorem Masks.step (h : Masks mask cookie v) (hc : ∀ u, u ≠ t → cookie' u = cookie u)
    (hct : ∀ req, x.cookie = some req → cookie' t = req)
    (hm : ∀ u req, u ≠ t → (v u).marks = some req → Sub req mask') (hmt : ∀ req, x.marks = some req → Sub req mask')
    (hseen : ∀ m, x = .pruning m → ∀ u req, v u = .waiting req → Sub req m)
    (hwait : ∀ req, x = .waiting req → v t = .waiting req ∨ ∀ u m, v u ≠ .pruning m) :
    Masks mask' cookie' (update v t x) := by
  refine ⟨fun u req hu => ?_, fun u req hu => ?_, fun u m hu y req hy => ?_⟩
  · by_cases hut : u = t
    · subst hut
      rw [update_self] at hu
      exact hct req hu
    · rw [update_of_ne hut] at hu
      rw [hc u hut]
      exact h.cookie u req hu
  · by_cases hut : u = t
    · subst hut
      rw [update_self] at hu
      exact hmt req hu
    · rw [update_of_ne hut] at hu
      exact hm u req hut hu
  · by_cases hut : u = t
    · subst hut
      rw [update_self] at hu
      by_cases hyu : y = u
      · subst hyu
        rw [update_self, hu] at hy
        cases hy
      · rw [update_of_ne hyu] at hy
        exact hseen m hu y req hy
    · rw [update_of_ne hut] at hu
      by_cases hyt : y = t
      · subst hyt
        rw [update_self] at hy
        rcases hwait req hy with hv | hno
        · exact h.seen u m hu y req hv
        · exact absurd hu (hno u m)
      · rw [update_of_ne hyt] at hy
        exact h.seen u m hu y req hy

omit [DecidableEq T] in
private theorem View.asleep_mono {b b' : Bool} (hb : b' = true → b = true) (h : x.asleep b' = some req) :
    x.asleep b = some req := by
  cases x with
  | waiting r =>
    cases b' with
    | true => rwa [hb rfl]
    | false => cases h
  | none | polled r | marked r | ready r | notifying r | pruning r | other => exact h

/-- A thread that sets events is about to notify of them, so that nobody sleeps unnoticed on an event that is set. -/
theorem Wakes.step (h : Wakes events blocked v) (hv : v t = y)
    (hb : ∀ u, u ≠ t → blocked' u = true → blocked u = true) (hn : Sub y.notifies x.notifies)
    (he : ∀ i, events'.getLsbD i = true → events.getLsbD i = true ∨ x.notifies.getLsbD i = true)
    (hx : ∀ req, x.asleep (blocked' t) = some req → y.asleep (blocked t) = some req ∨ events' &&& req = 0) :
    Wakes events' blocked' (update v t x) := by
  subst hv
  intro u req i hu hreq hev
  have hold : (v u).asleep (blocked u) = some req → ∃ u, (update v t x u).notifies.getLsbD i = true := by
    intro hu
    rcases he i hev with hi | hi
    · obtain ⟨y, hy⟩ := h u req i hu hreq hi
      refine ⟨y, ?_⟩
      by_cases hyt : y = t
      · subst hyt
        rw [update_self]
        exact hn i hy
      · rwa [update_of_ne hyt]
    · exact ⟨t, by rwa [update_self]⟩
  by_cases hut : u = t
  · subst hut
    rw [update_self] at hu
    rcases hx req hu with hv | h0
    · exact hold hv
    · exact absurd h0 (and_ne_zero_iff.2 ⟨i, hev, hreq⟩)
  · rw [update_of_ne hut] at hu
    exact hold (View.asleep_mono (hb u hut) hu)

private theorem Wakes.done (h : Wakes events blocked v) (hv : v t = y)
    (hb : ∀ u, blocked' u = true → blocked u = true) (hx : ∀ b, x.asleep b = Option.none)
    (hno : ∀ u req i, u ≠ t → (v u).asleep (blocked' u) = some req → req.getLsbD i = true →
      y.notifies.getLsbD i = false) :
    Wakes events blocked' (update v t x) := by
  subst hv
  intro u req i hu hreq hev
  by_cases hut : u = t
  · subst hut
    rw [update_self, hx] at hu
    cases hu
  · rw [update_of_ne hut] at hu
    obtain ⟨y, hy⟩ := h u req i (View.asleep_mono (hb u) hu) hreq hev
    have hyt : y ≠ t := by
      rintro rfl
      rw [hno u req i hut hu hreq] at hy
      cases hy
    exact ⟨y, by rwa [update_of_ne hyt]⟩

end

/-- What a thread has of the lock and where it is in the functions of the lock. A thread that takes the lock again
while it is in the queue does not wait for the lock. -/
def Ppc.Fits (r : Rpc) (reads : Nat) (writer : Bool) : Ppc → Prop
  | .lock _ => r.phase = .locking .read ∧ reads = 0 ∧ writer = false
  | .wait _ .lock => r.direct = true ∧ reads = 0 ∧ writer = false
  | .test _ | .wait _ .mark | .wait _ .cookie | .wait _ .add | .wait _ .remove =>
    r = .idle ∧ reads = 1 ∧ writer = false
  | .wait _ .unlock | .unlock _ => (r = .unlock .read ∧ reads = 1 ∨ r.phase = .waking ∧ reads = 0) ∧ writer = false
  | .notify _ _ .lock => r.phase = .locking .write ∧ reads = 0 ∧ writer = false
  | .notify _ _ .test | .notify _ _ .walk | .notify _ _ (.prune _) => r = .idle ∧ reads = 0 ∧ writer = true
  | .notify _ _ .unlock => (r = .unlock .write ∧ writer = true ∨ r.phase = .waking ∧ writer = false) ∧ reads = 0
  | _ => r = .idle ∧ reads = 0 ∧ writer = false

section
variable [Fintype T]

def Pollq.views (s : Pollq T) (t : T) : View := (s.pc t).view

structure PollInv (s : Pollq T) : Prop where
  rw : RwInv .lock s.rw
  fits : ∀ t, (s.pc t).Fits (s.rw.pc t) (s.rw.reads t) (s.rw.writer t)
  tickets : Tickets s.rw.wqs s.views
  masks : Masks s.waitmask s.cookie s.views
  wakes : Wakes s.events s.rw.wqs.blocked s.views

variable {s s' : Pollq T} {u : T} {p q : Ppc} {m : Event}

private theorem PollInv.knows (h : PollInv s) (hpc : s.pc t = q) : q.Fits (s.rw.pc t) (s.rw.reads t)
    (s.rw.writer t) :=
  hpc ▸ h.fits t

omit [Fintype T] in
private theorem Pollq.view_eq (hpc : s.pc t = q) : s.views t = q.view := congrArg Ppc.view hpc

private theorem PollInv.reads_of_asleep (h : PollInv s) (hb : (s.views u).asleep false = some req) :
    s.rw.reads u = 1 := by
  have hfit := h.fits u
  unfold views at hb
  cases hpc : s.pc u with
  | wait r p =>
    rw [hpc] at hfit hb
    cases p with
    | mark | cookie | add => exact hfit.2.1
    | unlock | sleep | lock | remove => cases hb
  | notify ev prev p =>
    rw [hpc] at hb
    cases p <;> cases hb
  | ret | poll | lock | test | unlock | set | clear | assign | propagate | contend =>
    rw [hpc] at hb
    cases hb

private theorem PollInv.writer_of_pruning (h : PollInv s) (hu : s.views u = .pruning m) : s.rw.writer u = true := by
  have hfit := h.fits u
  unfold views at hu
  cases hpc : s.pc u with
  | wait r p =>
    rw [hpc] at hu
    cases p <;> cases hu
  | notify ev prev p =>
    rw [hpc] at hfit hu
    cases p with
    | prune m => exact hfit.2.2
    | lock | test | walk | unlock => cases hu
  | ret | poll | lock | test | unlock | set | clear | assign | propagate | contend =>
    rw [hpc] at hu
    cases hu

/-- While a thread has the write lock, no thread is between its poll and its entry in the queue. -/
private theorem PollInv.asleep_waiting (h : PollInv s) (hw : s.rw.writer t = true) {b : Bool}
    (hu : (s.views u).asleep b = some req) :
    s.views u = .waiting req ∧ b = true := by
  have hreads : s.rw.reads u = 0 := (h.rw.held.of_writer hw).2.1 u
  have hno : (s.views u).asleep false ≠ some req := by
    intro hf
    have hone := h.reads_of_asleep hf
    omega
  cases hv : s.views u with
  | waiting r =>
    rw [hv] at hu
    cases b with
    | true =>
      cases hu
      exact ⟨rfl, rfl⟩
    | false => cases hu
  | none | polled r | marked r | ready r | notifying r | pruning r | other =>
    rw [hv] at hu hno
    exact absurd hu hno

variable [DecidableEq T]

omit [Fintype T] in
private theorem Pollq.views_update (hpc : s'.pc = update s.pc t p) : s'.views = update s.views t p.view := by
  funext u
  unfold views
  rw [hpc]
  by_cases hu : u = t
  · subst hu
    rw [update_self, update_self]
  · rw [update_of_ne hu, update_of_ne hu]

private theorem PollInv.move (h : PollInv s) (hpc : s'.pc = update s.pc t p) (hrw : RwInv .lock s'.rw)
    (hframe : ∀ u, u ≠ t → s'.rw.pc u = s.rw.pc u ∧ s'.rw.reads u = s.rw.reads u ∧ s'.rw.writer u = s.rw.writer u)
    (hfit : p.Fits (s'.rw.pc t) (s'.rw.reads t) (s'.rw.writer t))
    (htickets : Tickets s'.rw.wqs (update s.views t p.view))
    (hmasks : Masks s'.waitmask s'.cookie (update s.views t p.view))
    (hwakes : Wakes s'.events s'.rw.wqs.blocked (update s.views t p.view)) : PollInv s' := by
  rw [← views_update hpc] at htickets hmasks hwakes
  refine ⟨hrw, fun u => ?_, htickets, hmasks, hwakes⟩
  rw [hpc]
  by_cases hu : u = t
  · subst hu
    rwa [update_self]
  · obtain ⟨h1, h2, h3⟩ := hframe u hu
    rw [update_of_ne hu, h1, h2, h3]
    exact h.fits u

def View.plain : View → Bool
  | .none | .notifying _ => true
  | _ => false

omit [Fintype T] [DecidableEq T] in
theorem View.plain_spec (h : x.plain = true) :
    (∀ req, x ≠ .waiting req) ∧ x ≠ .other ∧ (∀ m, x ≠ .pruning m) ∧ x.marks = Option.none ∧ x.cookie = Option.none ∧
      ∀ b, x.asleep b = Option.none := by
  cases x with
  | none | notifying ev => exact ⟨nofun, nofun, nofun, rfl, rfl, fun _ => rfl⟩
  | polled r | marked r | ready r | waiting r | pruning r | other => cases h

section
variable (h : PollInv s)
include h

private theorem PollInv.plain (hpc : s'.pc = update s.pc t p) (hrw : RwInv .lock s'.rw)
    (hframe : ∀ u, u ≠ t → s'.rw.pc u = s.rw.pc u ∧ s'.rw.reads u = s.rw.reads u ∧ s'.rw.writer u = s.rw.writer u)
    (hwqs : s'.rw.wqs = s.rw.wqs) (hcookie : s'.cookie = s.cookie)
    (hfit : p.Fits (s'.rw.pc t) (s'.rw.reads t) (s'.rw.writer t)) (hv : s.views t = y)
    (hold : (∀ req, y ≠ .waiting req) ∧ y ≠ .other) (hnew : p.view.plain = true)
    (hmask : ∀ u req, u ≠ t → (s.views u).marks = some req → Sub req s'.waitmask)
    (hwakes : Wakes s'.events s.rw.wqs.blocked (update s.views t p.view)) : PollInv s' := by
  obtain ⟨hwait, hother, hprune, hmarks, hcook, -⟩ := View.plain_spec hnew
  refine h.move hpc hrw hframe hfit ?_ ?_ (hwqs ▸ hwakes)
  · rw [hwqs]
    exact h.tickets.goto hv (fun req => ⟨fun he => absurd he (hwait req), fun he => absurd he (hold.1 req)⟩)
      ⟨fun he => absurd he hother, fun he => absurd he hold.2⟩
  · refine h.masks.step (fun u _ => by rw [hcookie]) (fun req hr => ?_) hmask (fun req hr => ?_)
      (fun m hm => absurd hm (hprune m))
      fun req hr => absurd hr (hwait req)
    · rw [hcook] at hr
      cases hr
    · rw [hmarks] at hr
      cases hr

private theorem PollInv.rwStep {rw' : RwState T PollQueue} (hrw : RwInv .lock rw') (hframe : Frame .lock t s.rw rw')
    (hpc : s'.pc = update s.pc t p) (hview : p.view = s.views t) (hdata : s' = { s with rw := rw', pc := s'.pc })
    (hfit : p.Fits (rw'.pc t) (rw'.reads t) (rw'.writer t))
      (hq : ∀ req, s.views t = .waiting req → (rw'.pc t).queued = none) :
    PollInv s' := by
  have hviews : update s.views t p.view = s.views := by rw [hview, update_eq_self]
  have hrw' : s'.rw = rw' := by rw [hdata]
  refine h.move hpc (hrw'.symm ▸ hrw) (fun u hu => ?_) (hrw'.symm ▸ hfit) ?_ ?_ ?_ <;> rw [hdata]
  · exact ⟨hframe.pc u hu, hframe.reads u hu, hframe.writer u hu⟩
  · rw [hviews]
    exact h.tickets.congr (hframe.waiters .waitq nofun) (hframe.wq .waitq nofun) (hframe.wq .other nofun)
  · rw [hviews]
    exact h.masks
  · rw [hviews]
    intro u req i hu hreq hev
    by_cases hut : u = t
    · subst hut
      cases hv : s.views u with
      | waiting r =>
        refine h.wakes u req i (View.asleep_mono (fun hb => ?_) hu) hreq hev
        exact (hframe.blocked u hb).resolve_right fun hne => hne.2 (hq r hv)
      | none | polled r | marked r | ready r | notifying r | pruning r | other =>
        refine h.wakes u req i ?_ hreq hev
        rw [hv] at hu ⊢
        exact hu
    · refine h.wakes u req i (View.asleep_mono (fun hb => ?_) hu) hreq hev
      exact (hframe.blocked u hb).resolve_right fun hne => hut hne.1

private theorem PollInv.inLock (hview : p.view = s.views t)
    (hfree : s.rw.pc t = .wait .add ∨ (∃ m, s.rw.pc t = .event m .add) → s.rw.wqs.wq t = none)
    (hq : ∀ req, s.views t = .waiting req → ((s.rw.exec .lock t).pc t).queued = none)
    (hfit : if (s.rw.exec .lock t).pc t = .idle
      then p.Fits .idle ((s.rw.exec .lock t).reads t) ((s.rw.exec .lock t).writer t)
      else (s.pc t).Fits ((s.rw.exec .lock t).pc t) ((s.rw.exec .lock t).reads t) ((s.rw.exec .lock t).writer t)) :
    PollInv (s.inLock t p) := by
  have inj : Function.Injective PollQueue.lock := fun _ _ he => PollQueue.lock.inj he
  unfold Pollq.inLock
  split at hfit
  case isTrue hidle =>
    rw [if_pos hidle]
    exact h.rwStep (h.rw.exec inj hfree) (h.rw.exec_frame hfree) rfl hview rfl (hidle ▸ hfit) hq
  case isFalse hidle =>
    rw [if_neg hidle]
    exact h.rwStep (h.rw.exec inj hfree) (h.rw.exec_frame hfree) (update_eq_self t _).symm rfl rfl hfit hq

omit [DecidableEq T] in
private theorem PollInv.free (hrw : (s.rw.pc t).queued = none) (hwait : ∀ req, s.views t ≠ .waiting req)
    (hother : s.views t ≠ .other) : s.rw.wqs.wq t = none := by
  cases hq : s.rw.wqs.wq t with
  | none => rfl
  | some q =>
    cases q with
    | lock m =>
      have hqueued := (h.rw.queues.ticket t m).1 hq
      rw [hrw] at hqueued
      cases hqueued
    | waitq =>
      obtain ⟨req, hv⟩ := (h.tickets.ticket t).1 hq
      exact absurd hv (hwait req)
    | other => exact absurd ((h.tickets.other t).1 hq) hother

end

private theorem PollInv.inLocking {m : Mode} (h : PollInv s) (hview : p.view = s.views t)
    (hplain : p.view.plain = true) (hphase : (s.rw.pc t).phase = .locking m)
    (hstay : ∀ r : Rpc, r.phase = .locking m → (s.pc t).Fits r (s.rw.reads t) (s.rw.writer t))
    (hdone : s.rw.Took (s.rw.exec .lock t) t m →
      p.Fits .idle ((s.rw.exec .lock t).reads t) ((s.rw.exec .lock t).writer t)) :
    PollInv (s.inLock t p) := by
  obtain ⟨hwait, hother, -⟩ := View.plain_spec hplain
  rw [hview] at hwait hother
  have hfree : s.rw.pc t = .wait .add ∨ (∃ m, s.rw.pc t = .event m .add) → s.rw.wqs.wq t = none := by
    intro hadd
    refine h.free ?_ hwait hother
    rcases hadd with hadd | ⟨m, hadd⟩ <;> rw [hadd] <;> rfl
  refine h.inLock hview hfree (fun req hv => absurd hv (hwait req)) ?_
  rcases h.rw.exec_locking hphase hfree with ⟨hph, hr, hw⟩ | ⟨hidle, htook⟩
  · rw [if_neg (fun hidle => by rw [hidle] at hph; cases hph), hr, hw]
    exact hstay _ hph
  · rw [if_pos hidle]
    exact hdone htook

private theorem PollInv.inUnlocking {m : Mode} (h : PollInv s) (hview : p.view = s.views t)
    (hphase : s.rw.pc t = .unlock m ∨ (s.rw.pc t).phase = .waking)
    (hgave : s.rw.pc t = .unlock m → s.rw.Gave (s.rw.exec .lock t) t m →
      p.Fits .idle ((s.rw.exec .lock t).reads t) ((s.rw.exec .lock t).writer t) ∧
        ∀ r : Rpc, r.phase = .waking → (s.pc t).Fits r ((s.rw.exec .lock t).reads t) ((s.rw.exec .lock t).writer t))
    (hdone : (s.rw.pc t).phase = .waking → p.Fits .idle (s.rw.reads t) (s.rw.writer t)) : PollInv (s.inLock t p) := by
  have hfree : s.rw.pc t = .wait .add ∨ (∃ m, s.rw.pc t = .event m .add) → s.rw.wqs.wq t = none := by
    intro hadd
    rcases hadd with hadd | ⟨m, hadd⟩ <;> rw [hadd] at hphase <;> rcases hphase with hph | hph <;> cases hph
  have hunq : ∀ r : Rpc, r.phase = .waking ∨ r = .idle ∨ r = .unlock m → r.queued = none := by
    intro r hr
    cases r with
    | wait q | event q q => rcases hr with hr | hr | hr <;> cases hr
    | idle | lock | check | take | unlock | wakeOne | wakeAll => rfl
  rcases hphase with hpc | hph
  · rcases exec_unlocking PollQueue.lock hpc with hsame | ⟨hnext, hg⟩
    · refine h.inLock hview hfree (fun _ _ => ?_) ?_ <;> rw [hsame]
      · rw [hpc]
        rfl
      · rw [if_neg (fun hidle => by rw [hpc] at hidle; cases hidle)]
        exact h.fits t
    · refine h.inLock hview hfree (fun _ _ => hunq _ (hnext.imp id .inl)) ?_
      obtain ⟨hidleFit, hwakeFit⟩ := hgave hpc hg
      rcases hnext with hwake | hidle
      · rw [if_neg (fun hidle => by rw [hidle] at hwake; cases hwake)]
        exact hwakeFit _ hwake
      · rw [if_pos hidle]
        exact hidleFit
  · obtain ⟨hidle, hr, hw⟩ := h.rw.exec_waking hph
    refine h.inLock hview hfree (fun _ _ => hunq _ (.inr (.inl hidle))) ?_
    rw [if_pos hidle, hr, hw]
    exact hdone hph

variable {e ev prev : Event} {r : Rpc}

private theorem PollInv.enter {k : Event} (h : PollInv s) (hidle : s.rw.pc t = .idle)
    (hr : (∃ m, r = .lock m) ∨ ∃ m, r = .unlock m) (hpt : r.Point s.rw.lock (s.rw.reads t) (s.rw.writer t))
    (hfit : p.Fits r (s.rw.reads t) (s.rw.writer t)) (hv : s.views t = y)
    (hold : (∀ req, y ≠ .waiting req) ∧ y ≠ .other) (hnew : p.view.plain = true)
    (hmask : ∀ u req, u ≠ t → (s.views u).marks = some req → Sub req k)
    (hwakes : Wakes e s.rw.wqs.blocked (update s.views t p.view)) :
    PollInv ({ s with events := e, waitmask := k }.enter t r p) := by
  refine h.plain rfl (h.rw.enter hidle hr hpt) (fun u hu => ⟨update_of_ne hu .., rfl, rfl⟩) rfl rfl ?_ hv hold hnew
    hmask hwakes
  change p.Fits ((s.rw.goto t r).pc t) (s.rw.reads t) (s.rw.writer t)
  rwa [goto_pc]

section
variable (h : PollInv s)
include h

private theorem PollInv.leave (hfit : p.Fits (s.rw.pc t) (s.rw.reads t) (s.rw.writer t))
    (hv : s.views t = y) (hold : (∀ req, y ≠ .waiting req) ∧ y ≠ .other) (hnew : p.view.plain = true)
    (hwakes : Wakes e s.rw.wqs.blocked (update s.views t p.view)) : PollInv ({ s with events := e }.goto t p) :=
  h.plain rfl h.rw (fun _ _ => ⟨rfl, rfl, rfl⟩) rfl rfl hfit hv hold hnew
    (fun u req _ hu => h.masks.mask u req hu) hwakes

private theorem PollInv.wakes_plain (hv : s.views t = y) (hn : Sub y.notifies x.notifies) (he : Sub e s.events)
    (hx : x.plain = true) : Wakes e s.rw.wqs.blocked (update s.views t x) := by
  obtain ⟨-, -, -, -, -, hasleep⟩ := View.plain_spec hx
  refine h.wakes.step hv (fun _ _ => id) hn (fun i hi => .inl (he i hi)) fun req hreq => ?_
  rw [hasleep] at hreq
  cases hreq

private theorem PollInv.poll (hpc : s.pc t = .poll req) : PollInv (s.exec t) := by
  have hview := view_eq hpc
  have hfit := h.knows hpc
  unfold Pollq.exec
  rw [hpc]
  dsimp only
  split
  · exact h.leave hfit hview ⟨nofun, nofun⟩ rfl (h.wakes_plain hview (sub_refl _) (sub_refl _) rfl)
  · exact h.enter hfit.1 (.inl ⟨.read, rfl⟩) trivial ⟨rfl, hfit.2⟩ hview ⟨nofun, nofun⟩ rfl
      (fun u req _ hu => h.masks.mask u req hu) (h.wakes_plain hview (sub_refl _) (sub_refl _) rfl)

private theorem PollInv.test (hpc : s.pc t = .test req) : PollInv (s.exec t) := by
  have hview := view_eq hpc
  obtain ⟨hidle, hreads, hwriter⟩ := h.knows hpc
  unfold Pollq.exec
  rw [hpc]
  dsimp only
  split
  case isTrue =>
    refine h.enter hidle (.inr ⟨.read, rfl⟩) ?_ ⟨.inl ⟨rfl, hreads⟩, hwriter⟩ hview
      ⟨nofun, nofun⟩ rfl (fun u req _ hu => h.masks.mask u req hu) (h.wakes_plain hview (sub_refl _) (sub_refl _) rfl)
    change 0 < s.rw.reads t
    omega
  case isFalse h0 =>
    refine h.move rfl h.rw (fun _ _ => ⟨rfl, rfl, rfl⟩) ⟨hidle, hreads, hwriter⟩
      (h.tickets.goto hview (fun r => ⟨nofun, nofun⟩) ⟨nofun, nofun⟩)
      (h.masks.step (fun _ _ => rfl) nofun (fun u r _ hu => h.masks.mask u r hu) nofun nofun nofun)
      (h.wakes.step hview (fun _ _ => id) (sub_refl _) (fun _ => .inl) fun r hr => ?_)
    cases hr
    exact .inr (not_not.1 h0)

private theorem PollInv.mark (hpc : s.pc t = .wait req .mark) : PollInv (s.exec t) := by
  have hview := view_eq hpc
  have hfit := h.knows hpc
  unfold Pollq.exec
  rw [hpc]
  refine h.move rfl h.rw (fun _ _ => ⟨rfl, rfl, rfl⟩) hfit
    (h.tickets.goto hview (fun r => ⟨nofun, nofun⟩) ⟨nofun, nofun⟩)
    (h.masks.step (fun _ _ => rfl) nofun (fun u r _ hu => (h.masks.mask u r hu).or_left req)
        (fun r hr => ?_) nofun nofun)
    (h.wakes.step hview (fun _ _ => id) (sub_refl _) (fun _ => .inl) fun r => .inl)
  cases hr
  exact sub_or_right s.waitmask req

private theorem PollInv.setCookie (hpc : s.pc t = .wait req .cookie) : PollInv (s.exec t) := by
  have hview := view_eq hpc
  have hmask : Sub req s.waitmask := h.masks.mask t req (by rw [hview]; rfl)
  have hfit := h.knows hpc
  unfold Pollq.exec
  rw [hpc]
  refine h.move rfl h.rw (fun _ _ => ⟨rfl, rfl, rfl⟩) hfit
    (h.tickets.goto hview (fun r => ⟨nofun, nofun⟩) ⟨nofun, nofun⟩)
    (h.masks.step (fun u hu => update_of_ne hu ..) (fun r hr => ?_) (fun u r _ hu => h.masks.mask u r hu)
        (fun r hr => ?_)
      nofun nofun)
    (h.wakes.step hview (fun _ _ => id) (sub_refl _) (fun _ => .inl) fun r => .inl)
  · cases hr
    exact update_self ..
  · cases hr
    exact hmask

omit [DecidableEq T] in
private theorem PollInv.no_pruning (hr : 0 < s.rw.reads t) : s.views u ≠ .pruning m := by
  intro hu
  have h0 := (h.rw.held.of_writer (h.writer_of_pruning hu)).2.1 t
  omega

private theorem PollInv.add (hpc : s.pc t = .wait req .add) : PollInv (s.exec t) := by
  have hview := view_eq hpc
  obtain ⟨hidle, hreads, hwriter⟩ := h.knows hpc
  have hfree : s.rw.wqs.wq t = none :=
    h.free (by rw [hidle]; rfl) (by rw [hview]; exact nofun) (by rw [hview]; exact nofun)
  have hpos : 0 < s.rw.reads t := by omega
  unfold Pollq.exec
  rw [hpc]
  rw [add_eq hfree, Option.map_some]
  refine h.move rfl ((h.rw.addOther (q := .waitq) nofun hfree hidle).enter hidle (.inr ⟨.read, rfl⟩) hpos)
    (fun u hu => ⟨update_of_ne hu .., rfl, rfl⟩) ⟨.inl ⟨goto_pc, hreads⟩, hwriter⟩
    ((h.tickets.add hfree).congr rfl (fun _ => Iff.rfl) fun _ => Iff.rfl)
    (h.masks.step (fun _ _ => rfl) (fun r hr => ?_) (fun u r _ hu => h.masks.mask u r hu) (fun r hr => ?_) nofun
      fun r _ => .inr fun u m => h.no_pruning hpos)
    (h.wakes.step hview (fun u hu hb => ?_) (sub_refl _) (fun _ => .inl) fun r hr => ?_)
  · cases hr
    exact h.masks.cookie t req (by rw [hview]; rfl)
  · cases hr
    exact h.masks.mask t req (by rw [hview]; rfl)
  · change update s.rw.wqs.blocked t true u = true at hb
    rwa [update_of_ne hu] at hb
  · change View.asleep (.waiting req) (update s.rw.wqs.blocked t true t) = some r at hr
    rw [update_self] at hr
    exact .inl hr

private theorem PollInv.sleep (hpc : s.pc t = .wait req .sleep) : PollInv (s.exec t) := by
  have hfit := h.knows hpc
  unfold Pollq.exec
  rw [hpc]
  dsimp only
  split
  · exact h
  · refine h.rwStep (h.rw.enter hfit.1 (.inl ⟨.read, rfl⟩) trivial) (.goto) rfl (view_eq hpc).symm rfl
      ⟨?_, hfit.2⟩ fun _ _ => ?_
    · rw [goto_pc]
      rfl
    · rw [goto_pc]
      rfl

private theorem PollInv.remove (hpc : s.pc t = .wait req .remove) : PollInv (s.exec t) := by
  have hview := view_eq hpc
  have hticket : s.rw.wqs.wq t = some .waitq := (h.tickets.ticket t).2 ⟨req, hview⟩
  have hfit := h.knows hpc
  unfold Pollq.exec
  rw [hpc]
  rw [remove_eq hticket]
  exact h.move rfl (h.rw.removeOther nofun hticket) (fun u hu => ⟨rfl, rfl, rfl⟩) hfit (h.tickets.remove nofun nofun)
    (h.masks.step (fun _ _ => rfl) nofun (fun u r _ hu => h.masks.mask u r hu) nofun nofun nofun)
    (h.wakes.step hview (fun _ _ => id) (sub_refl _) (fun _ => .inl) nofun)

end

omit [Fintype T] [DecidableEq T] in
private theorem sub_none (a : Event) : Sub (View.notifies .none) a := fun i hi => by simp [View.notifies] at hi

private theorem PollInv.set (h : PollInv s) (hpc : s.pc t = .set ev) : PollInv (s.exec t) := by
  have hview := view_eq hpc
  have hfit := h.knows hpc
  unfold Pollq.exec
  rw [hpc]
  dsimp only
  split
  · exact h.leave hfit hview ⟨nofun, nofun⟩ rfl (h.wakes_plain hview (sub_refl _) (sub_refl _) rfl)
  · refine h.enter hfit.1 (.inl ⟨.write, rfl⟩) trivial ⟨rfl, hfit.2⟩ hview ⟨nofun, nofun⟩ rfl
      (fun u req _ hu => h.masks.mask u req hu)
        (h.wakes.step hview (fun _ _ => id) (sub_none _) (fun i hi => ?_) nofun)
    rw [getLsbD_or, Bool.or_eq_true_iff] at hi
    exact hi

private theorem PollInv.clear {clr : Event} (h : PollInv s) (hpc : s.pc t = .clear clr) : PollInv (s.exec t) := by
  have hview := view_eq hpc
  have hfit := h.knows hpc
  unfold Pollq.exec
  rw [hpc]
  refine h.leave hfit hview ⟨nofun, nofun⟩ rfl (h.wakes_plain hview (sub_refl _) (fun i hi => ?_) rfl)
  rw [getLsbD_and, Bool.and_eq_true_iff] at hi
  exact hi.1

private theorem PollInv.assign {val : Event} (h : PollInv s) (hpc : s.pc t = .assign val) : PollInv (s.exec t) := by
  have hview := view_eq hpc
  have hfit := h.knows hpc
  -- an event of the new value was set before, or is among those to notify
  have hnew : ∀ i, val.getLsbD i = true → s.events.getLsbD i = true ∨ (val &&& ~~~s.events).getLsbD i = true := by
    intro i hi
    cases hp : s.events.getLsbD i with
    | true => exact .inl rfl
    | false =>
      right
      rw [getLsbD_and, getLsbD_not, hi, hp, decide_eq_true (lt_of_getLsbD hi)]
      rfl
  unfold Pollq.exec
  rw [hpc]
  dsimp only
  split
  case isTrue =>
    exact h.enter hfit.1 (.inl ⟨.write, rfl⟩) trivial ⟨rfl, hfit.2⟩ hview ⟨nofun, nofun⟩ rfl
      (fun u req _ hu => h.masks.mask u req hu) (h.wakes.step hview (fun _ _ => id) (sub_none _) hnew nofun)
  case isFalse h0 =>
    have hsub : Sub val s.events := by
      intro i hi
      refine (hnew i hi).resolve_right fun hn => ?_
      rw [not_not.1 h0] at hn
      simp at hn
    split <;> exact h.leave hfit hview ⟨nofun, nofun⟩ rfl (h.wakes_plain hview (sub_refl _) hsub rfl)

private theorem PollInv.notifyTest (h : PollInv s) (hpc : s.pc t = .notify ev prev .test) : PollInv (s.exec t) := by
  have hview := view_eq hpc
  obtain ⟨hidle, hreads, hwriter⟩ := h.knows hpc
  unfold Pollq.exec
  rw [hpc]
  dsimp only
  split
  case isTrue =>
    exact h.leave ⟨hidle, hreads, hwriter⟩ hview ⟨nofun, nofun⟩ rfl
      (h.wakes_plain hview (sub_refl _) (sub_refl _) rfl)
  case isFalse h0 =>
    refine h.enter hidle (.inr ⟨.write, rfl⟩) hwriter ⟨.inl ⟨rfl, hwriter⟩, hreads⟩ hview
      ⟨nofun, nofun⟩ rfl (fun u req _ hu => h.masks.mask u req hu)
      (h.wakes.done hview (fun _ => id) (fun _ => rfl) fun u req i _ hu hreq => ?_)
    obtain ⟨hwait, -⟩ := h.asleep_waiting hwriter hu
    have hi : s.waitmask.getLsbD i = true := h.masks.mask u req (by rw [hwait]; rfl) i hreq
    rw [← Bool.not_eq_true]
    exact fun hn => h0 (and_ne_zero_iff.2 ⟨i, hi, hn⟩)

omit [Fintype T] [DecidableEq T] in
private theorem sub_seen {cookie : T → Event} {l : List T} (hu : u ∈ l) :
    Sub (cookie u) (l.foldl (fun ev u => ev ||| cookie u) 0) := by
  have key : ∀ l : List T, ∀ e : Event, Sub e (l.foldl (fun ev u => ev ||| cookie u) e) ∧
      ∀ u ∈ l, Sub (cookie u) (l.foldl (fun ev u => ev ||| cookie u) e) := by
    intro l
    induction l with
    | nil => exact fun e => ⟨sub_refl e, nofun⟩
    | cons y l ih =>
      intro e
      obtain ⟨h1, h2⟩ := ih (e ||| cookie y)
      refine ⟨fun i hi => h1 i ((sub_refl e).or_left _ i hi), fun u hu => ?_⟩
      rcases List.mem_cons.1 hu with rfl | hu
      · exact fun i hi => h1 i (sub_or_right e _ i hi)
      · exact h2 u hu
  exact (key l 0).2 u hu

private theorem PollInv.walk (h : PollInv s) (hpc : s.pc t = .notify ev prev .walk) : PollInv (s.exec t) := by
  have hview := view_eq hpc
  have hlinked : s.rw.wqs.Linked .waitq := fun u hu => (h.tickets.ticket u).2 ((h.tickets.mem u).1 hu)
  obtain ⟨hidle, hreads, hwriter⟩ := h.knows hpc
  unfold Pollq.exec
  rw [hpc]
  dsimp only
  rw [wakeUpIf_eq hlinked]
  have hblocked : ∀ u, (s.rw.wqs.blocked u &&
      !(decide (u ∈ s.rw.wqs.waiters .waitq) && decide (s.cookie u &&& ev ≠ 0))) = true →
      s.rw.wqs.blocked u = true := fun u hu => (Bool.and_eq_true_iff.1 hu).1
  have hcookie : ∀ u req, s.views u = .waiting req → u ∈ s.rw.wqs.waiters .waitq ∧ s.cookie u = req := by
    intro u req hu
    exact ⟨(h.tickets.mem u).2 ⟨req, hu⟩, h.masks.cookie u req (by rw [hu]; rfl)⟩
  refine h.move rfl (h.rw.other (fun _ => rfl) (fun _ _ => Iff.rfl) fun u hu => .inl (hblocked u hu))
    (fun _ _ => ⟨rfl, rfl, rfl⟩)
    ⟨hidle, hreads, hwriter⟩
    ((h.tickets.goto hview (fun r => ?_) ?_).congr rfl (fun _ => Iff.rfl) fun _ => Iff.rfl)
    (h.masks.step (fun _ _ => rfl) nofun (fun u r _ hu => h.masks.mask u r hu) nofun (fun m hm u r hu => ?_) nofun)
    (h.wakes.done hview hblocked (fun _ => rfl) fun u r i _ hu hreq => ?_)
  · exact ⟨nofun, nofun⟩
  · exact ⟨nofun, nofun⟩
  · obtain ⟨hmem, hc⟩ := hcookie u r hu
    cases hm
    exact hc ▸ sub_seen hmem
  · obtain ⟨hwait, hb⟩ := h.asleep_waiting hwriter hu
    obtain ⟨hmem, hc⟩ := hcookie u r hwait
    rw [← Bool.not_eq_true]
    intro hn
    have hne : s.cookie u &&& ev ≠ 0 := and_ne_zero_iff.2 ⟨i, hc ▸ hreq, hn⟩
    have hb' := (Bool.and_eq_true_iff.1 hb).2
    rw [decide_eq_true hmem, decide_eq_true hne] at hb'
    cases hb'

private theorem PollInv.prune {seen : Event} (h : PollInv s) (hpc : s.pc t = .notify ev prev (.prune seen)) :
    PollInv (s.exec t) := by
  have hview := view_eq hpc
  obtain ⟨hidle, hreads, hwriter⟩ := h.knows hpc
  unfold Pollq.exec
  rw [hpc]
  refine h.enter hidle (.inr ⟨.write, rfl⟩) hwriter ⟨.inl ⟨rfl, hwriter⟩, hreads⟩ hview ⟨nofun, nofun⟩
    rfl (fun u r _ hu => ?_) (h.wakes_plain hview (sub_refl _) (sub_refl _) rfl)
  have hasleep : (s.views u).asleep true = some r := by
    cases hv : s.views u with
    | marked r' | ready r' | waiting r' =>
      rw [hv] at hu
      exact hu
    | none | polled r' | notifying r' | pruning r' | other =>
      rw [hv] at hu
      cases hu
  exact h.masks.seen t seen hview u r (h.asleep_waiting hwriter hasleep).1

private theorem PollInv.contend (h : PollInv s) (hpc : s.pc t = .contend prev) : PollInv (s.exec t) := by
  have hview := view_eq hpc
  have hticket : s.rw.wqs.wq t = some .other := (h.tickets.other t).2 hview
  have hfit := h.knows hpc
  unfold Pollq.exec
  rw [hpc]
  dsimp only
  split
  · exact h
  · rw [remove_eq hticket]
    exact h.move rfl (h.rw.removeOther nofun hticket) (fun u hu => ⟨rfl, rfl, rfl⟩) hfit
      (h.tickets.removeOther hview) (h.masks.step (fun _ _ => rfl) nofun
          (fun u r _ hu => h.masks.mask u r hu) nofun nofun nofun)
      (h.wakes.step hview (fun _ _ => id) (sub_refl _) (fun _ => .inl) nofun)

private theorem PollInv.wait_other (h : PollInv s) : PollInv (s.contend t) := by
  unfold Pollq.contend
  split
  case h_1 prev hpc =>
    have hview := view_eq hpc
    have hfit := h.knows hpc
    have hfree : s.rw.wqs.wq t = none :=
      h.free (by rw [hfit.1]; rfl) (by rw [hview]; exact nofun) (by rw [hview]; exact nofun)
    rw [add_eq hfree, Option.map_some]
    refine h.move rfl (h.rw.addOther nofun hfree hfit.1) (fun u hu => ⟨rfl, rfl, rfl⟩) hfit
      ((h.tickets.addOther (l := s.rw.wqs.waiters .other ++ [t]) hfree).congr rfl (fun _ => Iff.rfl) fun _ => Iff.rfl)
      (h.masks.step (fun _ _ => rfl) nofun (fun u r _ hu => h.masks.mask u r hu) nofun nofun nofun)
      (h.wakes.step hview (fun u hu hb => ?_) (sub_refl _) (fun _ => .inl) nofun)
    change update s.rw.wqs.blocked t true u = true at hb
    rwa [update_of_ne hu] at hb
  case h_2 => exact h

private theorem PollInv.call (h : PollInv s) {c : PollCall} : PollInv (s.call t c) := by
  unfold Pollq.call
  split
  case h_1 ev hpc =>
    have hview := view_eq hpc
    have hc : c.pc.view = .none ∧ (c.pc.Fits (s.rw.pc t) (s.rw.reads t) (s.rw.writer t) ↔
        s.rw.pc t = .idle ∧ s.rw.reads t = 0 ∧ s.rw.writer t = false) := by
      cases c <;> exact ⟨rfl, Iff.rfl⟩
    exact h.leave (e := s.events) (hc.2.2 (h.knows hpc)) hview ⟨nofun, nofun⟩ (by rw [hc.1]; rfl)
      (h.wakes_plain hview (sub_none _) (sub_refl _) (by rw [hc.1]; rfl))
  case h_2 => exact h

omit [Fintype T] [DecidableEq T] in
private theorem Rpc.not_queued_of_direct (h : r.direct = true) :
    r.queued = none ∧ r ≠ .wait .add ∧ ∀ m, r ≠ .event m .add := by
  cases r with
  | wait q => cases h
  | event m q => cases h
  | idle | lock | check | take | unlock | wakeOne | wakeAll => exact ⟨rfl, nofun, nofun⟩

section
variable (h : PollInv s)
include h

private theorem PollInv.relock (hpc : s.pc t = .wait req .lock)
    (hlock : s.rw.pc t = .lock .read → s.rw.lock.sl = none → s.rw.lock.npendingWrites = 0)
    (hcheck : s.rw.pc t = .check .read → 0 ≤ s.rw.lock.nactive) : PollInv (s.exec t) := by
  obtain ⟨hdirect, hreads, hwriter⟩ := h.knows hpc
  unfold Pollq.exec
  rw [hpc]
  refine h.inLock (view_eq hpc).symm (fun hadd => ?_) (fun _ _ => ?_) ?_
  · obtain ⟨-, hwait, hevent⟩ := Rpc.not_queued_of_direct hdirect
    rcases hadd with hadd | ⟨m, hadd⟩
    · exact absurd hadd hwait
    · exact absurd hadd (hevent m)
  · rcases exec_direct PollQueue.lock hdirect hlock hcheck with ⟨hd, -⟩ | ⟨hidle, -⟩
    · exact (Rpc.not_queued_of_direct hd).1
    · rw [hidle]
      rfl
  · rcases exec_direct PollQueue.lock hdirect hlock hcheck with ⟨hd, hr, hw⟩ | ⟨hidle, hr, hw⟩
    · rw [if_neg (fun hidle => by rw [hidle] at hd; cases hd), hpc, hr, hw]
      exact ⟨hd, hreads, hwriter⟩
    · rw [if_pos hidle, hr, hw, hreads, hwriter]
      exact ⟨rfl, rfl, rfl⟩

private theorem PollInv.runlock (hview : p.view = s.views t)
    (hfit : ∀ r n b, (s.pc t).Fits r n b ↔ (r = .unlock .read ∧ n = 1 ∨ r.phase = .waking ∧ n = 0) ∧ b = false)
    (hnext : p.Fits .idle 0 false) : PollInv (s.inLock t p) := by
  obtain ⟨hat, hwriter⟩ := (hfit ..).1 (h.fits t)
  refine h.inUnlocking hview (hat.imp And.left And.left) (fun hu hg => ?_) fun hwake => ?_
  · have hone : s.rw.reads t = 1 := by
      rcases hat with ⟨-, hone⟩ | ⟨hwake, -⟩
      · exact hone
      · rw [hu] at hwake
        cases hwake
    rw [hg.1, hg.2, hone, hwriter]
    exact ⟨hnext, fun r hr => (hfit ..).2 ⟨.inr ⟨hr, rfl⟩, rfl⟩⟩
  · have hzero : s.rw.reads t = 0 := by
      rcases hat with ⟨hu, -⟩ | ⟨-, hzero⟩
      · rw [hu] at hwake
        cases hwake
      · exact hzero
    rw [hzero, hwriter]
    exact hnext

private theorem PollInv.wunlock (hpc : s.pc t = .notify ev prev .unlock) :
    PollInv (s.inLock t (.propagate prev)) := by
  obtain ⟨hat, hreads⟩ := h.knows hpc
  refine h.inUnlocking (view_eq hpc).symm (hat.imp And.left And.left) (fun _ hg => ?_) fun hwake => ?_
  · rw [hg.1, hg.2, hreads, hpc]
    exact ⟨⟨rfl, rfl, rfl⟩, fun r hr => ⟨.inr ⟨hr, rfl⟩, rfl⟩⟩
  · have hfalse : s.rw.writer t = false := by
      rcases hat with ⟨hu, -⟩ | ⟨-, hfalse⟩
      · rw [hu] at hwake
        cases hwake
      · exact hfalse
    exact ⟨rfl, hreads, hfalse⟩

/-- Every step of a thread keeps the invariant. -/
theorem PollInv.exec
    (hrelock : ∀ req, s.pc t = .wait req .lock →
      (s.rw.pc t = .lock .read → s.rw.lock.sl = none → s.rw.lock.npendingWrites = 0) ∧
      (s.rw.pc t = .check .read → 0 ≤ s.rw.lock.nactive)) : PollInv (s.exec t) := by
  cases hpc : s.pc t with
  | ret ev =>
    unfold Pollq.exec
    rw [hpc]
    exact h
  | poll req => exact h.poll hpc
  | lock req =>
    have hfit := h.knows hpc
    unfold Pollq.exec
    rw [hpc]
    refine h.inLocking (view_eq hpc).symm rfl hfit.1 (fun r hr => ?_) fun htook => ?_
    · rw [hpc]
      exact ⟨hr, hfit.2⟩
    · exact ⟨rfl, by rw [htook.1, hfit.2.1], by rw [htook.2, hfit.2.2]⟩
  | test req => exact h.test hpc
  | wait req p =>
    cases p with
    | mark => exact h.mark hpc
    | cookie => exact h.setCookie hpc
    | add => exact h.add hpc
    | unlock =>
      unfold Pollq.exec
      rw [hpc]
      refine h.runlock (view_eq hpc).symm (fun r n b => ?_) ⟨rfl, rfl, rfl⟩
      rw [hpc]
      exact Iff.rfl
    | sleep => exact h.sleep hpc
    | lock => exact h.relock hpc (hrelock req hpc).1 (hrelock req hpc).2
    | remove => exact h.remove hpc
  | unlock ev =>
    unfold Pollq.exec
    rw [hpc]
    refine h.runlock (view_eq hpc).symm (fun r n b => ?_) ⟨rfl, rfl, rfl⟩
    rw [hpc]
    exact Iff.rfl
  | set ev => exact h.set hpc
  | clear clr => exact h.clear hpc
  | assign val => exact h.assign hpc
  | notify ev prev p =>
    cases p with
    | lock =>
      have hfit := h.knows hpc
      unfold Pollq.exec
      rw [hpc]
      refine h.inLocking (view_eq hpc).symm rfl hfit.1 (fun r hr => ?_) fun htook => ?_
      · rw [hpc]
        exact ⟨hr, hfit.2⟩
      · exact ⟨rfl, by rw [htook.1, hfit.2.1], htook.2⟩
    | test => exact h.notifyTest hpc
    | walk => exact h.walk hpc
    | prune seen => exact h.prune hpc
    | unlock =>
      unfold Pollq.exec
      rw [hpc]
      exact h.wunlock hpc
  | propagate prev =>
    have hview := view_eq hpc
    have hfit := h.knows hpc
    unfold Pollq.exec
    rw [hpc]
    exact h.leave (e := s.events) hfit hview ⟨nofun, nofun⟩ rfl (h.wakes_plain hview (sub_refl _) (sub_refl _) rfl)
  | contend prev => exact h.contend hpc

private theorem PollInv.wake : PollInv { s with rw := { s.rw with wqs := s.rw.wqs.wake t } } :=
  ⟨h.rw.wake, h.fits, h.tickets.congr rfl (fun _ => Iff.rfl) fun _ => Iff.rfl, h.masks,
    fun u req i hu => h.wakes u req i (View.asleep_mono blocked_of_wake hu)⟩

end

omit [DecidableEq T] in
theorem PollInv.init (ev : Event) : PollInv (Pollq.init ev : Pollq T) :=
  ⟨RwInv.init, fun _ => ⟨rfl, rfl, rfl⟩,
      ⟨fun _ => ⟨nofun, nofun⟩, fun _ => ⟨nofun, nofun⟩, fun _ => ⟨nofun, nofun⟩, List.nodup_nil⟩,
    ⟨nofun, nofun, nofun⟩, nofun⟩

/-- The condition of a run: a thread that has been woken and takes the lock again while its ticket is in `waitq` finds
no waiting writer where it tests `npending_writes` and no active one where it tests `nactive`. -/
def Pollq.relockFree (s : Pollq T) : PollAct T → Bool
  | .exec t =>
    match s.pc t, s.rw.pc t with
    | .wait _ .lock, .lock .read => s.rw.lock.sl.isSome || decide (s.rw.lock.npendingWrites = 0)
    | .wait _ .lock, .check .read => decide (0 ≤ s.rw.lock.nactive)
    | _, _ => true
  | _ => true

/-- Every step of the system keeps the invariant. -/
theorem PollInv.step (h : PollInv s) {a : PollAct T} (ha : s.relockFree a = true) : PollInv (s.step a) := by
  unfold Pollq.step
  rw [if_neg (by rw [h.rw.failed]; exact Bool.false_ne_true)]
  cases a with
  | call t c => exact h.call
  | exec t =>
    refine h.exec fun req hpc => ⟨fun hr hsl => ?_, fun hr => ?_⟩
    · simp only [relockFree, hpc, hr, hsl, Option.isSome_none, Bool.false_or, decide_eq_true_iff] at ha
      exact ha
    · simp only [relockFree, hpc, hr, decide_eq_true_iff] at ha
      exact ha
  | contend t => exact h.wait_other
  | wake t => exact h.wake

def Ppc.request : Ppc → Option Event
  | .wait req _ => some req
  | _ => none

def Ppc.notifying : Ppc → Option Event
  | .notify ev _ _ => some ev
  | _ => none

/-- The mask contains the request of each thread in `waitq`; if one of its events is set, the thread is runnable or a
thread that has set one of them is still notifying; no assertion has failed. -/
structure PollOk (s : Pollq T) : Prop where
  waiting : ∀ t ∈ s.rw.wqs.waiters .waitq, ∃ req, (s.pc t).request = some req ∧ req &&& ~~~s.waitmask = 0 ∧
    (req &&& s.events ≠ 0 → s.rw.wqs.blocked t = false ∨
      ∃ u ev, (s.pc u).notifying = some ev ∧ ev &&& (req &&& s.events) ≠ 0)
  failed : s.rw.failed = false

section

omit [Fintype T] [DecidableEq T]

private theorem Ppc.request_of_view (h : p.view = .waiting req) : p.request = some req := by
  cases p with
  | wait r q =>
    cases q with
    | unlock | sleep | lock | remove =>
      cases h
      rfl
    | mark | cookie | add => cases h
  | notify ev prev q => cases q <;> cases h
  | ret | poll | lock | test | unlock | set | clear | assign | propagate | contend => cases h

private theorem Ppc.notifying_of_view {i : Nat} (h : p.view.notifies.getLsbD i = true) :
    ∃ ev, p.notifying = some ev ∧ ev.getLsbD i = true := by
  cases p with
  | notify ev prev q =>
    cases q with
    | lock | test | walk => exact ⟨ev, rfl, h⟩
    | prune | unlock => simp [view, View.notifies] at h
  | wait r q => cases q <;> simp [view, View.notifies] at h
  | ret | poll | lock | test | unlock | set | clear | assign | propagate | contend => simp [view, View.notifies] at h

end

omit [DecidableEq T] in
private theorem PollInv.ok (h : PollInv s) : PollOk s := by
  refine ⟨fun t ht => ?_, h.rw.failed⟩
  obtain ⟨req, hv⟩ := (h.tickets.mem t).1 ht
  refine ⟨req, Ppc.request_of_view hv, (h.masks.mask t req (by rw [hv]; rfl)).and_not_eq_zero, fun hev => ?_⟩
  cases hb : s.rw.wqs.blocked t with
  | false => exact .inl rfl
  | true =>
    obtain ⟨i, hreq, hi⟩ := and_ne_zero_iff.1 hev
    obtain ⟨u, hu⟩ := h.wakes t req i (by rw [hv, hb]; rfl) hreq hi
    obtain ⟨ev, hn, hevi⟩ := Ppc.notifying_of_view hu
    refine .inr ⟨u, ev, hn, and_ne_zero_iff.2 ⟨i, hevi, ?_⟩⟩
    rw [getLsbD_and, hreq, hi]
    rfl

/-- In every run in which no woken thread has to wait for the lock, polling threads are woken. -/
theorem pollq_wakes {ev : Event} {as : List (PollAct T)}
    (h : Meets Pollq.step (fun s a => s.relockFree a = true) (Pollq.init ev : Pollq T) as) :
    Always Pollq.step PollOk (Pollq.init ev : Pollq T) as :=
  h.always (fun _ _ hs ha => hs.step ha) (fun _ hs => hs.ok) (PollInv.init ev)

end

/-- A thread waits for an event that another one sets, and takes the lock again after the other has given it back. -/
theorem pollq_wakes_two : Always Pollq.step PollOk (Pollq.init 0 : Pollq (Fin 2))
    ([.call 0 (.poll 1)] ++ List.replicate 9 (.exec 0) ++ [.call 1 (.set 1)] ++ List.replicate 8 (.exec 1) ++
      List.replicate 5 (.exec 0)) :=
  pollq_wakes (by decide +kernel)

/-- The thread that set the event still has the lock when the woken thread takes it again: its ticket is in `waitq`
when it is to be added to the queue of the lock. -/
theorem not_pollq_wakes : ¬ Always Pollq.step PollOk (Pollq.init 0 : Pollq (Fin 2))
    ([.call 0 (.poll 1)] ++ List.replicate 9 (.exec 0) ++ [.call 1 (.set 1)] ++ List.replicate 6 (.exec 1) ++
      List.replicate 4 (.exec 0)) := by
  intro h
  have hfailed := h.last.failed
  revert hfailed
  decide +kernel

end Unikraft.Ukfile
