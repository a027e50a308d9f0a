import Unikraft.Lock.Rwlock

/-!
# What a step of the lock changes

The steps of a thread in the lock functions, seen by code that uses the lock among other wait queues: the thread goes
through the function and ends with the lock taken or given back, nothing of another thread changes except that it may
be woken, and the tickets in the other queues stay.
-/

namespace Unikraft.Lock

open RwState Waitqs
open Function (update update_eq_self update_of_ne update_self)

/-- The part of a lock or unlock function that a thread is in. -/
inductive Phase where
  | out
  | locking (m : Mode)
  | unlocking (m : Mode)
  | waking
  deriving DecidableEq

def Rpc.phase : Rpc → Phase
  | .idle => .out
  | .wait _ => .locking .read
  | .lock m | .check m | .event m _ | .take m => .locking m
  | .unlock m => .unlocking m
  | .wakeOne | .wakeAll => .waking

variable {T Q : Type} {qs : Mode → Q} {s : RwState T Q} {t : T} {m : Mode}

section
variable [DecidableEq T] {s' : RwState T Q} {p : Rpc}

/-- A step of `t` leaves the other threads and the queues that are not of the lock as they are, except that it may
wake threads. -/
structure Frame (qs : Mode → Q) (t : T) (s s' : RwState T Q) : Prop where
  pc : ∀ u, u ≠ t → s'.pc u = s.pc u
  reads : ∀ u, u ≠ t → s'.reads u = s.reads u
  writer : ∀ u, u ≠ t → s'.writer u = s.writer u
  waiters : ∀ q, (∀ m, q ≠ qs m) → s'.wqs.waiters q = s.wqs.waiters q
  wq : ∀ q, (∀ m, q ≠ qs m) → ∀ u, s'.wqs.wq u = some q ↔ s.wqs.wq u = some q
  blocked : ∀ u, s'.wqs.blocked u = true → s.wqs.blocked u = true ∨ u = t ∧ (s'.pc t).queued ≠ none

omit [DecidableEq T] in
private theorem Frame.refl : Frame qs t s s :=
  ⟨fun _ _ => rfl, fun _ _ => rfl, fun _ _ => rfl, fun _ _ => rfl, fun _ _ _ => Iff.rfl, fun _ => .inl⟩

private theorem Frame.of_lock {r : Nat} {b : Bool} (hpc : s'.pc = update s.pc t p)
    (hr : s'.reads = update s.reads t r) (hw : s'.writer = update s.writer t b) (hwqs : s'.wqs = s.wqs) :
    Frame qs t s s' := by
  refine ⟨fun u hu => ?_, fun u hu => ?_, fun u hu => ?_, fun _ _ => ?_, fun _ _ _ => ?_, fun _ h => ?_⟩
  · rw [hpc, update_of_ne hu]
  · rw [hr, update_of_ne hu]
  · rw [hw, update_of_ne hu]
  · rw [hwqs]
  · rw [hwqs]
  · rw [hwqs] at h
    exact .inl h

theorem Frame.goto {l : UkRwlock T} : Frame qs t s ((s.setLock l).goto t p) :=
  .of_lock rfl (update_eq_self t _).symm (update_eq_self t _).symm rfl

theorem update_eq_some_iff {f : T → Option Q} {x : Option Q} {q : Q} (ht : f t ≠ some q) (hx : x ≠ some q) (u : T) :
    update f t x u = some q ↔ f u = some q := by
  by_cases hut : u = t
  · subst hut
    rw [update_self]
    exact iff_of_false hx ht
  · rw [update_of_ne hut]

variable [DecidableEq Q]

private theorem Frame.add (hfree : s.wqs.wq t = none) (hp : p.queued ≠ none) :
    Frame qs t s (s.withWqs ((s.wqs.add (qs m) t).map (·.block t)) fun s => s.goto t p) := by
  rw [add_eq hfree]
  refine ⟨fun u hu => update_of_ne hu .., fun _ _ => rfl, fun _ _ => rfl, fun q hq => update_of_ne (hq m) ..,
    fun q hq => update_eq_some_iff (by simp [hfree]) fun h => hq m (Option.some.inj h).symm, fun u hu => ?_⟩
  change update s.wqs.blocked t true u = true at hu
  by_cases hut : u = t
  · refine .inr ⟨hut, ?_⟩
    change (update s.pc t p t).queued ≠ none
    rwa [update_self]
  · rw [update_of_ne hut] at hu
    exact .inl hu

private theorem Frame.remove (hq : s.wqs.wq t = some (qs m)) :
    Frame qs t s (s.withWqs (s.wqs.remove t) fun s => s.goto t p) := by
  rw [remove_eq hq]
  refine ⟨fun u hu => update_of_ne hu .., fun _ _ => rfl, fun _ _ => rfl, fun q hq => update_of_ne (hq m) ..,
    fun q hne => update_eq_some_iff (fun h => hne m (Option.some.inj (hq.symm.trans h)).symm) nofun, fun _ => .inl⟩

omit [DecidableEq Q] in
private theorem Frame.wake {w : Waitqs T Q} (hw : w.waiters = s.wqs.waiters) (hq : w.wq = s.wqs.wq)
    (hb : ∀ u, w.blocked u = true → s.wqs.blocked u = true) : Frame qs t s ({ s with wqs := w }.goto t p) := by
  refine ⟨fun u hu => update_of_ne hu .., fun _ _ => rfl, fun _ _ => rfl, fun q _ => congrFun hw q, fun q _ u => ?_,
    fun u hu => .inl (hb u hu)⟩
  change w.wq u = some q ↔ _
  rw [hq]

omit [DecidableEq Q] in
private theorem Frame.block (hp : p.queued ≠ none) :
    Frame qs t s (({ s with wqs := s.wqs.block t } : RwState T Q).goto t p) := by
  refine ⟨fun u hu => update_of_ne hu .., fun _ _ => rfl, fun _ _ => rfl, fun _ _ => rfl, fun _ _ _ => Iff.rfl,
    fun u hu => ?_⟩
  by_cases hut : u = t
  · refine .inr ⟨hut, ?_⟩
    change (update s.pc t p t).queued ≠ none
    rwa [update_self]
  · change update s.wqs.blocked t true u = true at hu
    rw [update_of_ne hut] at hu
    exact .inl hu

omit [DecidableEq T] [DecidableEq Q] in
/-- The thread waits in place. -/
private theorem Frame.unless {c : Prop} [Decidable c] (h : Frame qs t s s') : Frame qs t s (if c then s else s') := by
  split
  · exact .refl
  · exact h

end

section
variable [Fintype T] [DecidableEq T] [DecidableEq Q] {l : List T}

/-- A step of a thread changes nothing of the others but what its wake-ups unblock. -/
theorem RwInv.exec_frame (h : RwInv qs s)
    (hfree : s.pc t = .wait .add ∨ (∃ m, s.pc t = .event m .add) → s.wqs.wq t = none) :
    Frame qs t s (s.exec qs t) := by
  have hticket := h.queues.ticket t
  unfold RwState.exec
  cases hpc : s.pc t with
  | idle => exact .refl
  | lock m => cases m <;> exact .unless .goto
  | wait q =>
    cases q with
    | add => exact .add (hfree (.inl hpc)) nofun
    | unlock => exact .goto
    | sleep => exact .unless .goto
    | remove => exact .remove ((hticket .read).2 (by rw [hpc]; rfl))
  | check m => exact .goto
  | event m q =>
    cases q with
    | add =>
      dsimp only
      split
      · exact .goto
      · exact .add (hfree (.inr ⟨m, hpc⟩)) nofun
    | unlock => exact .goto
    | sleep => exact .unless .goto
    | test =>
      dsimp only
      split
      · exact .remove ((hticket m).2 (by rw [hpc]; rfl))
      · exact .block nofun
  | take m =>
    cases m with
    | read => exact .of_lock rfl rfl (update_eq_self t _).symm rfl
    | write => exact .of_lock rfl (update_eq_self t _).symm rfl rfl
  | unlock m =>
    cases m with
    | read => exact .unless (.of_lock rfl rfl (update_eq_self t _).symm rfl)
    | write => exact .unless (.of_lock rfl (update_eq_self t _).symm rfl rfl)
  | wakeOne =>
    cases hq : s.wqs.waiters (qs .write) with
    | nil =>
      rw [wakeUpOne_nil hq]
      exact .wake rfl rfl fun _ => id
    | cons v l =>
      rw [wakeUpOne_cons (h.queues.linked .write) hq]
      exact .wake rfl rfl fun _ => blocked_of_wake
  | wakeAll =>
    rw [wakeUp_eq (h.queues.linked .read)]
    exact .wake rfl rfl fun u hu => (Bool.and_eq_true_iff.1 hu).1

def RwState.SameHold (s s' : RwState T Q) (t : T) : Prop := s'.reads t = s.reads t ∧ s'.writer t = s.writer t

def RwState.Took (s s' : RwState T Q) (t : T) : Mode → Prop
  | .read => s'.reads t = s.reads t + 1 ∧ s'.writer t = s.writer t
  | .write => s'.reads t = s.reads t ∧ s'.writer t = true

def RwState.Gave (s s' : RwState T Q) (t : T) : Mode → Prop
  | .read => s'.reads t = s.reads t - 1 ∧ s'.writer t = s.writer t
  | .write => s'.reads t = s.reads t ∧ s'.writer t = false

section

omit [Fintype T] [DecidableEq Q]

theorem RwState.goto_pc {p : Rpc} : (s.goto t p).pc t = p := update_self ..

private theorem RwState.phase_goto {p : Rpc} {f : Phase} (hp : p.phase = f) : ((s.goto t p).pc t).phase = f := by
  rw [goto_pc, hp]

end

/-- A thread that locks goes on, or has the lock. -/
theorem RwInv.exec_locking (h : RwInv qs s) (hphase : (s.pc t).phase = .locking m)
    (hfree : s.pc t = .wait .add ∨ (∃ m, s.pc t = .event m .add) → s.wqs.wq t = none) :
    ((s.exec qs t).pc t).phase = .locking m ∧ s.SameHold (s.exec qs t) t ∨
      (s.exec qs t).pc t = .idle ∧ s.Took (s.exec qs t) t m := by
  have hticket := h.queues.ticket t
  have hsame : (s.pc t).phase = .locking m ∧ s.SameHold s t := ⟨hphase, rfl, rfl⟩
  unfold RwState.exec
  cases hpc : s.pc t with (rw [hpc] at hphase; cases hphase)
  | lock m' =>
    left
    cases m with
    | read =>
      dsimp only
      split
      · exact hsame
      · refine ⟨phase_goto ?_, rfl, rfl⟩
        split <;> rfl
    | write =>
      dsimp only
      split
      · exact hsame
      · exact ⟨phase_goto rfl, rfl, rfl⟩
  | wait q =>
    left
    cases q with
    | add =>
      rw [add_eq (hfree (.inl hpc))]
      exact ⟨phase_goto rfl, rfl, rfl⟩
    | unlock => exact ⟨phase_goto rfl, rfl, rfl⟩
    | sleep =>
      dsimp only
      split
      · exact hsame
      · exact ⟨phase_goto rfl, rfl, rfl⟩
    | remove =>
      rw [remove_eq ((hticket .read).2 (by rw [hpc]; rfl))]
      exact ⟨phase_goto rfl, rfl, rfl⟩
  | check m' =>
    refine .inl ⟨phase_goto ?_, rfl, rfl⟩
    split <;> rfl
  | event m' q =>
    left
    cases q with
    | add =>
      dsimp only
      split
      · exact ⟨phase_goto rfl, rfl, rfl⟩
      · rw [add_eq (hfree (.inr ⟨m, hpc⟩))]
        exact ⟨phase_goto rfl, rfl, rfl⟩
    | unlock => exact ⟨phase_goto rfl, rfl, rfl⟩
    | sleep =>
      dsimp only
      split
      · exact hsame
      · exact ⟨phase_goto rfl, rfl, rfl⟩
    | test =>
      dsimp only
      split
      · rw [remove_eq ((hticket m).2 (by rw [hpc]; rfl))]
        exact ⟨phase_goto rfl, rfl, rfl⟩
      · exact ⟨phase_goto rfl, rfl, rfl⟩
  | take m' =>
    right
    cases m with
    | read => exact ⟨goto_pc, update_self .., rfl⟩
    | write => exact ⟨goto_pc, rfl, update_self ..⟩

omit [Fintype T] in
/-- A thread that unlocks spins, or has given the lock back. -/
theorem RwState.exec_unlocking (qs : Mode → Q) (hpc : s.pc t = .unlock m) :
    s.exec qs t = s ∨
      (((s.exec qs t).pc t).phase = .waking ∨ (s.exec qs t).pc t = .idle) ∧ s.Gave (s.exec qs t) t m := by
  unfold exec
  rw [hpc]
  cases m with
  | read =>
    dsimp only
    split
    · exact .inl rfl
    · refine .inr ⟨?_, update_self .., rfl⟩
      rw [goto_pc]
      split
      · exact .inl rfl
      · exact .inr rfl
  | write =>
    dsimp only
    split
    · exact .inl rfl
    · refine .inr ⟨.inl ?_, rfl, update_self ..⟩
      rw [goto_pc]
      split <;> rfl

/-- A thread that has given the lock back wakes others and returns. -/
theorem RwInv.exec_waking (h : RwInv qs s) (hphase : (s.pc t).phase = .waking) :
    (s.exec qs t).pc t = .idle ∧ s.SameHold (s.exec qs t) t := by
  unfold RwState.exec
  cases hpc : s.pc t with
  | wakeOne =>
    cases hq : s.wqs.waiters (qs .write) with
    | nil =>
      rw [wakeUpOne_nil hq]
      exact ⟨goto_pc, rfl, rfl⟩
    | cons v l =>
      rw [wakeUpOne_cons (h.queues.linked .write) hq]
      exact ⟨goto_pc, rfl, rfl⟩
  | wakeAll =>
    rw [wakeUp_eq (h.queues.linked .read)]
    exact ⟨goto_pc, rfl, rfl⟩
  | idle | lock m' | wait q | check m' | event m' q | take m' | unlock m' =>
    rw [hpc] at hphase
    cases hphase

def Rpc.direct : Rpc → Bool
  | .lock .read | .check .read | .take .read => true
  | _ => false

omit [Fintype T] in
/-- A reader that meets no writer does not wait. -/
theorem RwState.exec_direct (qs : Mode → Q) (hpc : (s.pc t).direct = true)
    (hlock : s.pc t = .lock .read → s.lock.sl = none → s.lock.npendingWrites = 0)
    (hcheck : s.pc t = .check .read → 0 ≤ s.lock.nactive) :
    ((s.exec qs t).pc t).direct = true ∧ s.SameHold (s.exec qs t) t ∨
      (s.exec qs t).pc t = .idle ∧ s.Took (s.exec qs t) t .read := by
  have hsame : (s.pc t).direct = true ∧ s.SameHold s t := ⟨hpc, rfl, rfl⟩
  unfold exec
  cases hp : s.pc t with
  | lock m =>
    cases m with
    | read =>
      left
      dsimp only
      split
      case isTrue => exact hsame
      case isFalse hsl =>
        rw [if_neg (Nat.not_lt.2 (hlock hp (not_not.1 hsl)).le)]
        exact ⟨by rw [goto_pc]; rfl, rfl, rfl⟩
    | write =>
      rw [hp] at hpc
      cases hpc
  | check m =>
    cases m with
    | read =>
      dsimp only
      rw [if_pos (ready_read.2 (hcheck hp))]
      exact .inl ⟨by rw [goto_pc]; rfl, rfl, rfl⟩
    | write =>
      rw [hp] at hpc
      cases hpc
  | take m =>
    cases m with
    | read => exact .inr ⟨goto_pc, update_self .., rfl⟩
    | write =>
      rw [hp] at hpc
      cases hpc
  | idle | wait q | event m q | unlock m | wakeOne | wakeAll =>
    rw [hp] at hpc
    cases hpc

omit [DecidableEq T] [DecidableEq Q] in
/-- Other users of the wait queues do not disturb the lock. -/
theorem RwInv.other (h : RwInv qs s) {w : Waitqs T Q} (hw : ∀ m, w.waiters (qs m) = s.wqs.waiters (qs m))
    (hq : ∀ u m, w.wq u = some (qs m) ↔ s.wqs.wq u = some (qs m))
    (hb : ∀ u, w.blocked u = true → s.wqs.blocked u = true ∨ s.pc u = .idle) : RwInv qs { s with wqs := w } := by
  refine ⟨h.counted, h.held, h.point, ⟨fun u m => ?_, fun u m => ?_, fun m => ?_⟩,
      ⟨fun h0 hpos => ?_, fun u hqu hblk => ?_⟩, h.failed⟩
  · rw [hw m]
    exact h.queues.mem u m
  · exact (hq u m).trans (h.queues.ticket u m)
  · rw [hw m]
    exact h.queues.nodup m
  · rcases h.progress.writers h0 hpos with ⟨u, hu⟩ | hone | ⟨u, hu, hwait⟩
    · refine .inl ⟨u, Rpc.woken_mono (fun hblk => ?_) hu⟩
      rcases hb u hblk with hblk | hidle
      · exact hblk
      · rw [hidle] at hu
        cases hu
    · exact .inr (.inl hone)
    · refine .inr (.inr ⟨u, hu, ?_⟩)
      rwa [hw]
  · rcases hb u hblk with hblk | hidle
    · exact h.progress.readers u hqu hblk
    · have hidle' : (s.pc u).queued = some .read := hqu
      rw [hidle] at hidle'
      cases hidle'

theorem RwInv.addOther (h : RwInv qs s) {q : Q} (hq : ∀ m, qs m ≠ q) (hfree : s.wqs.wq t = none)
    (hidle : s.pc t = .idle) :
    RwInv qs { s with wqs := Waitqs.block { s.wqs with waiters := update s.wqs.waiters q l
                                                       wq := update s.wqs.wq t (some q) } t } := by
  refine h.other (fun m => update_of_ne (hq m) ..)
    (fun u m => update_eq_some_iff (by simp [hfree]) (fun he => hq m (Option.some.inj he).symm) u) fun u hu => ?_
  change update s.wqs.blocked t true u = true at hu
  by_cases hut : u = t
  · rw [hut]
    exact .inr hidle
  · rw [update_of_ne hut] at hu
    exact .inl hu

theorem RwInv.removeOther (h : RwInv qs s) {q : Q} (hq : ∀ m, qs m ≠ q) (ht : s.wqs.wq t = some q) :
    RwInv qs { s with wqs := { s.wqs with waiters := update s.wqs.waiters q l, wq := update s.wqs.wq t none } } := by
  exact h.other (fun m => update_of_ne (hq m) ..)
    (fun u m => update_eq_some_iff (x := none) (fun he => hq m (Option.some.inj (ht.symm.trans he)).symm) nofun u)
      fun u hu => .inl hu

end

end Unikraft.Lock
