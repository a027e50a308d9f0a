import Mathlib.Data.List.Nodup
import Unikraft.Lib.Runs

/-!
# The cooperative scheduler and its queues

A step is one section with interrupts disabled; a function that is interrupted between two is a phase, in which only
wake-ups by interrupt handlers come in between. A thread has one link for both queues: inserting a thread that is in a
queue and removing one that is not are failures, as failed assertions are. The queues are exact in every run in which
no thread is added blocked, in which a thread that gets blocked is running or has been switched out before, and in
which no thread is terminated that sleeps.
-/

namespace Unikraft.Sched

/-- The flags, `wakeup_time`, whether `sched` is set, and whether the thread has been released (or not been created
yet). -/
structure UkThread where
  runnable : Bool
  exited : Bool
  queueable : Bool
  wakeupTime : Int
  sched : Bool
  released : Bool

def UkThread.isRunnable (t : UkThread) : Bool := !t.exited && t.runnable

def UkThread.isBlocked (t : UkThread) : Bool := !t.exited && !t.runnable

/-- What is in progress: `schedcoop_schedule` before the switch, or `uk_sched_thread_terminate` before it yields or
releases. -/
inductive Phase (T : Type) where
  | none
  | switching (next : T)
  | exiting
  | terminating (t : T)

structure Coop (T : Type) where
  thread : T → UkThread
  runQueue : List T
  sleepQueue : List T
  exitedThreads : List T
  current : T
  idle : T
  phase : Phase T
  clock : Int
  failed : Bool

namespace Coop

variable {T : Type} [DecidableEq T]

/-- After `uk_sched_start`: the main thread runs, and the idle thread is ready. -/
def start (main idle : T) : Coop T where
  thread t := ⟨true, false, false, 0, decide (t = main ∨ t = idle), decide (t ≠ main ∧ t ≠ idle)⟩
  runQueue := []
  sleepQueue := []
  exitedThreads := []
  current := main
  idle := idle
  phase := .none
  clock := 0
  failed := false

variable (s : Coop T) (t : T)

def modify (f : UkThread → UkThread) : Coop T :=
  { s with thread := Function.update s.thread t (f (s.thread t)) }

def assert (b : Bool) : Coop T := { s with failed := s.failed || !b }

def insertRun : Coop T :=
  if t ∈ s.runQueue ∨ t ∈ s.sleepQueue then { s with failed := true } else { s with runQueue := s.runQueue ++ [t] }

def insertSleep : Coop T :=
  if t ∈ s.runQueue ∨ t ∈ s.sleepQueue then { s with failed := true }
    else { s with sleepQueue := s.sleepQueue ++ [t] }

def removeRun : Coop T :=
  if t ∈ s.runQueue then { s with runQueue := s.runQueue.erase t } else { s with failed := true }

def removeSleep : Coop T :=
  if t ∈ s.sleepQueue then { s with sleepQueue := s.sleepQueue.erase t } else { s with failed := true }

def threadWoken : Coop T :=
  let s := if (s.thread t).wakeupTime > 0 then s.removeSleep t else s
  if (s.thread t).queueable && (s.thread t).isRunnable then (s.insertRun t).modify t
    fun th => { th with queueable := false } else s

def wake : Coop T :=
  let s :=
    if (s.thread t).isRunnable then s
    else
      let s := s.modify t fun th => { th with runnable := true }
      if (s.thread t).sched then (s.assert (s.thread t).isRunnable).threadWoken t else s
  s.modify t fun th => { th with wakeupTime := 0 }

def threadBlocked : Coop T :=
  let s := if t ≠ s.current then s.removeRun t else s
  if (s.thread t).wakeupTime > 0 then s.insertSleep t else s

def blockUntil (deadline : Int) : Coop T :=
  let s := s.modify t fun th => { th with wakeupTime := deadline }
  if (s.thread t).isRunnable then
    let s := s.modify t fun th => { th with runnable := false }
    if (s.thread t).sched then s.threadBlocked t else s
  else s

/-- A thread that is created, runnable or not, and added with `uk_sched_thread_add`. -/
def create (runnable : Bool) : Coop T :=
  let s := s.modify t fun _ => ⟨runnable, false, false, 0, true, false⟩
  if (s.thread t).isRunnable then s.insertRun t else s

def threadRemove : Coop T :=
  let s := if t ≠ s.current && (s.thread t).isRunnable then s.removeRun t else s
  s.modify t fun th => { th with sched := false }

def terminate : Coop T :=
  let s := (s.assert (s.thread t).sched).threadRemove t
  if t = s.current then
    { s.modify t fun th => { th with exited := true } with
      exitedThreads := s.exitedThreads ++ [t]
      phase := .exiting }
  else { s with phase := .terminating t }

def release : Coop T := s.modify t fun th => { th with exited := true, released := true }

def threadGc : Coop T :=
  s.exitedThreads.foldl (fun s t => { (s.assert (t ≠ s.current && (s.thread t).exited)).release t with
    exitedThreads := s.exitedThreads.erase t }) s

def expire : Coop T :=
  s.sleepQueue.foldl (fun s t =>
    if (s.thread t).wakeupTime ≠ 0 ∧ (s.thread t).wakeupTime ≤ s.clock then s.wake t else s) s

def pick : T × Coop T :=
  match s.runQueue with
  | next :: rest =>
    let s := (s.assert (next ≠ s.current && (s.thread next).isRunnable))
    let s := { s with runQueue := rest }
    (next, if s.current ≠ s.idle ∧ (s.thread s.current).isRunnable = true then s.insertRun s.current else s)
  | [] => (if (s.thread s.current).isRunnable then s.current else s.idle, s)

def schedule : Coop T :=
  let (next, s) := s.expire.pick
  if next ≠ s.current then
    { (s.modify s.current fun th => { th with queueable := true }).modify next fun th =>
        { th with queueable := false } with
      phase := .switching next }
  else { s with phase := .none }

end Coop

inductive CoopAct (T : Type) where
  | create (t : T) (runnable : Bool)
  | blockUntil (t : T) (deadline : Int)
  | wake (t : T)
  | schedule
  | switch
  | terminate (t : T)
  | release
  | gc
  | tick (d : Nat)

/-- After a failure nothing happens. Released threads are not used, and the idle thread calls `uk_sched_thread_gc`. -/
def Coop.step {T : Type} [DecidableEq T] (s : Coop T) (a : CoopAct T) : Coop T :=
  if s.failed then s
  else
    match s.phase, a with
    | .none, .create t r => if (s.thread t).released then s.create t r else s
    | .none, .blockUntil t deadline => if (s.thread t).released then s else s.blockUntil t deadline
    | .none, .terminate t => if (s.thread t).released then s else s.terminate t
    | .none, .gc => if s.current = s.idle then s.threadGc else s
    | .none, .schedule | .exiting, .schedule => s.schedule
    | .switching next, .switch => { s with current := next, phase := .none }
    | .terminating t, .release => { s.release t with phase := .none }
    | _, .wake t => if (s.thread t).released then s else s.wake t
    | _, .tick d => { s with clock := s.clock + d }
    | _, _ => s

open Function (update update_eq_self update_idem update_of_ne update_self)
open Coop List Runs UkThread

variable {T : Type}

def Phase.running (current : T) : Phase T → T
  | .switching next => next
  | _ => current

def Coop.running (s : Coop T) : T := s.phase.running s.current

structure Queues (thread : T → UkThread) (run sleep : List T) (running idle : T) : Prop where
  mem_run : ∀ t, t ∈ run ↔ (thread t).sched = true ∧ (thread t).isRunnable = true ∧ t ≠ running ∧ t ≠ idle
  runNodup : run.Nodup
  mem_sleep : ∀ t, t ∈ sleep ↔ (thread t).sched = true ∧ (thread t).isBlocked = true ∧ 0 < (thread t).wakeupTime
  sleepNodup : sleep.Nodup
  queueable : ∀ t, (thread t).sched = true → (thread t).isBlocked = true → t ≠ running → (thread t).queueable = true
  running : (thread running).queueable = false

/-- The thread that runs belongs to the scheduler, and so does the next one; a thread that is being terminated does
not. -/
def Phase.Fine (thread : T → UkThread) (current : T) : Phase T → Prop
  | .none => (thread current).sched = true
  | .switching next => (thread next).sched = true
  | .exiting => (thread current).exited = true
  | .terminating t => (thread current).sched = true ∧ (thread t).sched = false ∧ (thread t).exited = false

structure CoopInv (s : Coop T) : Prop where
  queues : Queues s.thread s.runQueue s.sleepQueue s.running s.idle
  alive : ∀ t, (s.thread t).sched = true → (s.thread t).exited = false ∧ (s.thread t).released = false
  idle : (s.thread s.idle).sched = true ∧ (s.thread s.idle).runnable = true
  exited : ∀ t ∈ s.exitedThreads, (s.thread t).exited = true ∧ (s.thread t).released = false
  exitedNodup : s.exitedThreads.Nodup
  phase : s.phase.Fine s.thread s.current
  failed : s.failed = false

variable {th : UkThread} {t u : T}

private theorem UkThread.isRunnable_eq (h : th.exited = false) : th.isRunnable = th.runnable := by
  rw [isRunnable, h]
  rfl

private theorem UkThread.isBlocked_eq (h : th.exited = false) : th.isBlocked = !th.runnable := by
  rw [isBlocked, h]
  rfl

private theorem UkThread.not_both (h : th.isBlocked = true) : th.isRunnable = false := by
  unfold isBlocked at h
  unfold isRunnable
  revert h
  cases th.exited <;> cases th.runnable <;> decide

section
variable [DecidableEq T] {thread : T → UkThread} {run sleep run' sleep' : List T} {running idle : T} {x : UkThread}
    {l : List T}

omit [DecidableEq T] in
private theorem mem_append_ne (hu : u ≠ t) : u ∈ l ++ [t] ↔ u ∈ l := by
  rw [mem_append, mem_singleton]
  exact ⟨fun h => h.resolve_right hu, .inl⟩

omit [DecidableEq T] in
private theorem nodup_append_of_not_mem (hl : l.Nodup) (ht : t ∉ l) : (l ++ [t]).Nodup :=
  hl.append (nodup_singleton t) (disjoint_singleton.2 ht)

section
variable (h : Queues thread run sleep running idle)
include h

private theorem Queues.set (hrun : ∀ u, u ≠ t → (u ∈ run' ↔ u ∈ run))
    (hrunt : t ∈ run' ↔ x.sched = true ∧ x.isRunnable = true ∧ t ≠ running ∧ t ≠ idle) (hrn : run'.Nodup)
    (hsleep : ∀ u, u ≠ t → (u ∈ sleep' ↔ u ∈ sleep))
    (hsleept : t ∈ sleep' ↔ x.sched = true ∧ x.isBlocked = true ∧ 0 < x.wakeupTime)
    (hsn : sleep'.Nodup) (hq : x.sched = true → x.isBlocked = true → t ≠ running → x.queueable = true)
    (hr : t = running → x.queueable = false) : Queues (update thread t x) run' sleep' running idle := by
  refine ⟨fun u => ?_, hrn, fun u => ?_, hsn, fun u => ?_, ?_⟩
  · by_cases hu : u = t
    · subst hu
      rwa [update_self]
    · rw [update_of_ne hu, hrun u hu]
      exact h.mem_run u
  · by_cases hu : u = t
    · subst hu
      rwa [update_self]
    · rw [update_of_ne hu, hsleep u hu]
      exact h.mem_sleep u
  · by_cases hu : u = t
    · subst hu
      rwa [update_self]
    · rw [update_of_ne hu]
      exact h.queueable u
  · by_cases hrt : running = t
    · rw [hrt, update_self]
      exact hr hrt.symm
    · rw [update_of_ne hrt]
      exact h.running

omit [DecidableEq T] in
private theorem Queues.not_mem_run (ht : (thread t).isRunnable = false ∨ t = running) : t ∉ run := by
  intro hmem
  obtain ⟨-, hr, hne, -⟩ := (h.mem_run t).1 hmem
  rcases ht with ht | ht
  · rw [ht] at hr
    cases hr
  · exact hne ht

omit [DecidableEq T] in
private theorem Queues.not_mem_sleep (ht : (thread t).isBlocked = false ∨ (thread t).wakeupTime ≤ 0) : t ∉ sleep := by
  intro hmem
  obtain ⟨-, hb, hpos⟩ := (h.mem_sleep t).1 hmem
  rcases ht with ht | ht
  · rw [ht] at hb
    cases hb
  · omega

private theorem Queues.outside (ht : (thread t).sched = false) (hth : x.sched = false)
    (hq : x.queueable = (thread t).queueable) : Queues (update thread t x) run sleep running idle := by
  refine h.set (fun _ _ => Iff.rfl) ?_ h.runNodup (fun _ _ => Iff.rfl) ?_ h.sleepNodup (fun hs => ?_) fun hr => ?_
  · rw [h.mem_run t, ht, hth]
    exact ⟨fun hm => absurd hm.1 Bool.false_ne_true, fun hm => absurd hm.1 Bool.false_ne_true⟩
  · rw [h.mem_sleep t, ht, hth]
    exact ⟨fun hm => absurd hm.1 Bool.false_ne_true, fun hm => absurd hm.1 Bool.false_ne_true⟩
  · rw [hth] at hs
    cases hs
  · rw [hq, hr]
    exact h.running

end

end

section
variable [DecidableEq T] {s : Coop T} {p : Phase T}

private theorem CoopInv.set (h : CoopInv s) {x : UkThread} {run' sleep' : List T}
    (hq : Queues (update s.thread t x) run' sleep' (p.running s.current) s.idle)
    (halive : x.sched = true → x.exited = false ∧ x.released = false)
    (hidle : t = s.idle → x.sched = true ∧ x.runnable = true)
    (hexited : t ∈ s.exitedThreads → x.exited = true ∧ x.released = false)
    (hphase : p.Fine (update s.thread t x) s.current) :
    CoopInv { s with thread := update s.thread t x, runQueue := run', sleepQueue := sleep', phase := p } := by
  refine ⟨hq, fun u => ?_, ?_, fun u hu => ?_, h.exitedNodup, hphase, h.failed⟩
  · dsimp only
    by_cases hut : u = t
    · subst hut
      rwa [update_self]
    · rw [update_of_ne hut]
      exact h.alive u
  · change (update s.thread t x s.idle).sched = true ∧ (update s.thread t x s.idle).runnable = true
    by_cases hi : s.idle = t
    · rw [hi, update_self]
      exact hidle hi.symm
    · rw [update_of_ne hi]
      exact h.idle
  · change (update s.thread t x u).exited = true ∧ (update s.thread t x u).released = false
    by_cases hut : u = t
    · subst hut
      rw [update_self]
      exact hexited hu
    · rw [update_of_ne hut]
      exact h.exited u hu

variable {d : Int}

private theorem Phase.Fine.set {thread : T → UkThread} {current : T} (h : p.Fine thread current)
    (hs : th.sched = (thread t).sched) (he : th.exited = (thread t).exited) :
    p.Fine (update thread t th) current := by
  have hsched : ∀ u, (update thread t th u).sched = (thread u).sched := by
    intro u
    by_cases hu : u = t
    · subst hu
      rw [update_self, hs]
    · rw [update_of_ne hu]
  have hexited : ∀ u, (update thread t th u).exited = (thread u).exited := by
    intro u
    by_cases hu : u = t
    · subst hu
      rw [update_self, he]
    · rw [update_of_ne hu]
  cases p with
  | none => exact (hsched current).trans h
  | switching next => exact (hsched next).trans h
  | exiting => exact (hexited current).trans h
  | terminating y => exact ⟨(hsched current).trans h.1, (hsched y).trans h.2.1, (hexited y).trans h.2.2⟩

private theorem Coop.modify_modify {f g : UkThread → UkThread} :
    (s.modify t f).modify t g = s.modify t fun th => g (f th) := by
  unfold modify
  dsimp only
  rw [update_self, update_idem]

private theorem Coop.removeSleep_eq (h : t ∈ s.sleepQueue) :
    s.removeSleep t = { s with sleepQueue := s.sleepQueue.erase t } := if_pos h

private theorem Coop.removeRun_eq (h : t ∈ s.runQueue) : s.removeRun t = { s with runQueue := s.runQueue.erase t } :=
  if_pos h

private theorem Coop.insertRun_eq (h : t ∉ s.runQueue) (h' : t ∉ s.sleepQueue) :
    s.insertRun t = { s with runQueue := s.runQueue ++ [t] } :=
  if_neg fun hor => hor.elim h h'

private theorem Coop.insertSleep_eq (h : t ∉ s.runQueue) (h' : t ∉ s.sleepQueue) :
    s.insertSleep t = { s with sleepQueue := s.sleepQueue ++ [t] } :=
  if_neg fun hor => hor.elim h h'

@[simp] theorem Coop.modify_thread {f : UkThread → UkThread} : (s.modify t f).thread t = f (s.thread t) :=
  update_self ..

omit [DecidableEq T] in
private theorem Coop.assert_eq {b : Bool} (hf : s.failed = false) (hb : b = true) : s.assert b = s := by
  have he : (s.failed || !b) = s.failed := by rw [hb, hf]; rfl
  rw [assert, he]

private theorem Coop.threadWoken_eq (hsleep : t ∈ s.sleepQueue ↔ 0 < (s.thread t).wakeupTime)
    (hn : s.sleepQueue.Nodup) (hrun : t ∉ s.runQueue) (hr : (s.thread t).isRunnable = true) :
    s.threadWoken t =
      { s with
        thread := update s.thread t { s.thread t with queueable := false }
        sleepQueue := s.sleepQueue.erase t
        runQueue := if (s.thread t).queueable then s.runQueue ++ [t] else s.runQueue } := by
  have hdrop : (if (s.thread t).wakeupTime > 0 then s.removeSleep t else s) =
    { s with sleepQueue := s.sleepQueue.erase t } := by
    split
    next hw =>
      rw [removeSleep_eq (hsleep.2 hw)]
    next hw =>
      rw [erase_of_not_mem fun hm => hw (hsleep.1 hm)]
  unfold threadWoken
  rw [hdrop]
  dsimp only
  rw [hr]
  cases hq : (s.thread t).queueable with
  | true =>
    have hins : ({ s with sleepQueue := s.sleepQueue.erase t } : Coop T).insertRun t =
        { s with sleepQueue := s.sleepQueue.erase t, runQueue := s.runQueue ++ [t] } :=
      insertRun_eq hrun hn.not_mem_erase
    rw [if_pos rfl, hins]
    rfl
  | false =>
    have hth : { s.thread t with queueable := false } = s.thread t := by rw [← hq]
    rw [if_neg (by decide), if_neg (by decide), hth, update_eq_self]

private theorem Coop.wake_eq (h : CoopInv s) (hs : (s.thread t).sched = true) (hb : (s.thread t).isBlocked = true) :
    s.wake t = { s with
        thread := update s.thread t { s.thread t with runnable := true, wakeupTime := 0, queueable := false }
        sleepQueue := s.sleepQueue.erase t
        runQueue := if (s.thread t).queueable then s.runQueue ++ [t] else s.runQueue } := by
  have hnot := not_both hb
  have hrunnable : ({ s.thread t with runnable := true } : UkThread).isRunnable = true := by
    rw [isRunnable, (h.alive t hs).1]
    rfl
  have hsleep : t ∈ s.sleepQueue ↔ 0 < (s.thread t).wakeupTime := by
    rw [h.queues.mem_sleep]
    exact ⟨fun hm => hm.2.2, fun hw => ⟨hs, hb, hw⟩⟩
  have hwoken := threadWoken_eq (s := s.modify t fun th => { th with runnable := true })
    (by rw [modify_thread]; exact hsleep) h.queues.sleepNodup
    (h.queues.not_mem_run (.inl hnot)) (by rw [modify_thread]; exact hrunnable)
  have hassert : (s.modify t fun th => { th with runnable := true }).assert
      ((s.modify t fun th => { th with runnable := true }).thread t).isRunnable = s.modify t
        fun th => { th with runnable := true } :=
    assert_eq h.failed (by rw [modify_thread]; exact hrunnable)
  unfold wake
  rw [if_neg (by rw [hnot]; exact Bool.false_ne_true)]
  dsimp only
  rw [hassert, hwoken, modify_thread, if_pos hs]
  unfold modify
  dsimp only
  rw [update_self, update_idem, update_idem]

private theorem Queues.wake (h : Queues s.thread s.runQueue s.sleepQueue s.running s.idle)
    (hs : (s.thread t).sched = true)
    (hb : (s.thread t).isBlocked = true) (hidle : t ≠ s.idle) (hth : th.isRunnable = true ∧ th.sched = true ∧
      th.queueable = false) :
    Queues (update s.thread t th) (if (s.thread t).queueable then s.runQueue ++ [t] else s.runQueue)
      (s.sleepQueue.erase t) s.running s.idle := by
  have hrun : t ∉ s.runQueue := h.not_mem_run (.inl (not_both hb))
  have hblocked : th.isBlocked ≠ true := fun hbl => by
    rw [not_both hbl] at hth
    cases hth.1
  refine h.set (fun u hu => ?_) ?_ ?_ (fun u hu => ?_) ?_ (h.sleepNodup.erase t) (fun _ hbl => absurd hbl hblocked)
    fun _ => hth.2.2
  · split
    · exact mem_append_ne hu
    · exact Iff.rfl
  · cases hq : (s.thread t).queueable with
    | true =>
      have hne : t ≠ s.running := by
        rintro rfl
        rw [h.running] at hq
        cases hq
      exact ⟨fun _ => ⟨hth.2.1, hth.1, hne, hidle⟩, fun _ => mem_append_right _ (mem_singleton_self t)⟩
    | false =>
      have he : t = s.running := by
        by_contra hne
        rw [h.queueable t hs hb hne] at hq
        cases hq
      exact ⟨fun hm => absurd hm hrun, fun hm => absurd he hm.2.2.1⟩
  · split
    · exact nodup_append_of_not_mem h.runNodup hrun
    · exact h.runNodup
  · rw [h.sleepNodup.mem_erase_iff]
    exact ⟨And.right, fun hm => ⟨hu, hm⟩⟩
  · exact ⟨fun hm => absurd hm h.sleepNodup.not_mem_erase, fun hm => absurd hm.2.1 hblocked⟩

private theorem Queues.stay (h : Queues s.thread s.runQueue s.sleepQueue s.running s.idle)
    (hth : th.sched = (s.thread t).sched ∧ th.queueable = (s.thread t).queueable)
    (hs : (s.thread t).sched = true → (s.thread t).isRunnable = true ∧ th.isRunnable = true) :
    Queues (update s.thread t th) s.runQueue s.sleepQueue s.running s.idle := by
  cases hsched : (s.thread t).sched with
  | false => exact h.outside hsched (hth.1.trans hsched) hth.2
  | true =>
    obtain ⟨hr, hr'⟩ := hs hsched
    have hblocked : th.isBlocked ≠ true := fun hbl => by
      rw [not_both hbl] at hr'
      cases hr'
    have hnot : (s.thread t).isBlocked = false := by
      rw [← Bool.not_eq_true]
      intro hbl
      rw [not_both hbl] at hr
      cases hr
    refine h.set (fun _ _ => Iff.rfl) ?_ h.runNodup (fun _ _ => Iff.rfl) ?_ h.sleepNodup
      (fun _ hbl => absurd hbl hblocked) fun he => ?_
    · rw [h.mem_run, hth.1, hr, hr']
    · exact ⟨fun hm => absurd hm (h.not_mem_sleep (.inl hnot)), fun hm => absurd hm.2.1 hblocked⟩
    · rw [hth.2, he]
      exact h.running

omit [DecidableEq T] in
private theorem CoopInv.ne_idle (h : CoopInv s) (hb : (s.thread t).isBlocked = true) : t ≠ s.idle := by
  rintro rfl
  rw [isBlocked_eq (h.alive s.idle h.idle.1).1, h.idle.2] at hb
  cases hb

private theorem CoopInv.wake (h : CoopInv s) : CoopInv (s.wake t) := by
  cases hr : (s.thread t).isRunnable with
  | true =>
    have he : s.wake t = s.modify t fun th => { th with wakeupTime := 0 } := by rw [Coop.wake, if_pos hr]
    rw [he]
    exact h.set (h.queues.stay ⟨rfl, rfl⟩ fun _ => ⟨hr, hr⟩) (h.alive t) (fun hi => hi ▸ h.idle) (h.exited t)
      (h.phase.set rfl rfl)
  | false =>
    cases hs : (s.thread t).sched with
    | true =>
      have hb : (s.thread t).isBlocked = true := by
        rw [isRunnable_eq (h.alive t hs).1] at hr
        rw [isBlocked_eq (h.alive t hs).1, hr]
        rfl
      have hrunnable : ({ s.thread t with runnable := true, wakeupTime := 0, queueable := false } :
          UkThread).isRunnable = true := by
        rw [isRunnable, (h.alive t hs).1]
        rfl
      rw [wake_eq h hs hb]
      exact h.set (h.queues.wake hs hb (h.ne_idle hb) ⟨hrunnable, hs, rfl⟩) (h.alive t)
        (fun hi => absurd hi (h.ne_idle hb)) (h.exited t)
        (h.phase.set rfl rfl)
    | false =>
      have he : s.wake t = s.modify t fun th => { th with runnable := true, wakeupTime := 0 } := by
        rw [Coop.wake, if_neg (by rw [hr]; exact Bool.false_ne_true)]
        dsimp only
        rw [modify_thread, if_neg (by rw [hs]; exact Bool.false_ne_true), modify_modify]
      rw [he]
      refine h.set (h.queues.stay ⟨rfl, rfl⟩ fun hsched => ?_) (h.alive t) (fun hi => ?_) (h.exited t)
        (h.phase.set rfl rfl)
      · rw [hs] at hsched
        cases hsched
      · rw [hi] at hs
        rw [h.idle.1] at hs
        cases hs

omit [DecidableEq T] in
private theorem Coop.running_none (hphase : s.phase = .none) : s.running = s.current := by
  rw [running, hphase]
  rfl

private theorem Coop.blockUntil_runnable (hr : (s.thread t).isRunnable = true) : s.blockUntil t d =
      if (s.thread t).sched then (s.modify t fun th => { th with wakeupTime := d, runnable := false }).threadBlocked t
      else s.modify t fun th => { th with wakeupTime := d, runnable := false } := by
  unfold blockUntil
  dsimp only
  rw [modify_modify, modify_thread, modify_thread]
  exact if_pos hr

private theorem Coop.blockUntil_blocked (hr : (s.thread t).isRunnable = false) :
    s.blockUntil t d = s.modify t fun th => { th with wakeupTime := d } := by
  unfold blockUntil
  dsimp only
  rw [modify_thread]
  refine if_neg fun hr' => ?_
  rw [isRunnable] at hr hr'
  rw [hr] at hr'
  cases hr'

private theorem Coop.blockUntil_eq (h : CoopInv s) (hphase : s.phase = .none) (hs : (s.thread t).sched = true)
    (hr : (s.thread t).isRunnable = true) (hidle : t ≠ s.idle) :
    s.blockUntil t d =
      { s with
        thread := update s.thread t { s.thread t with wakeupTime := d, runnable := false }
        runQueue := s.runQueue.erase t
        sleepQueue := if 0 < d then s.sleepQueue ++ [t] else s.sleepQueue } := by
  have hsleep : t ∉ s.sleepQueue := h.queues.not_mem_sleep (.inl (Bool.eq_false_iff.2 fun hb => by
    rw [not_both hb] at hr
    cases hr))
  have hrun : t ∉ s.runQueue.erase t := h.queues.runNodup.not_mem_erase
  have hdrop (f : UkThread → UkThread) :
      (if t ≠ (s.modify t f).current then (s.modify t f).removeRun t else s.modify t f) =
      { s.modify t f with runQueue := s.runQueue.erase t } := by
    by_cases hcur : t = s.current
    · have hn : t ∉ s.runQueue := h.queues.not_mem_run (.inr (hcur.trans (running_none hphase).symm))
      rw [erase_of_not_mem hn]
      exact if_neg (not_not_intro hcur)
    · have hm : t ∈ s.runQueue := (h.queues.mem_run t).2 ⟨hs, hr, by rwa [running_none hphase], hidle⟩
      exact (if_pos hcur).trans (removeRun_eq hm)
  rw [blockUntil_runnable hr, if_pos hs, threadBlocked, hdrop]
  rw [modify_thread]
  by_cases hd : 0 < d
  · rw [if_pos hd, if_pos hd]
    exact insertSleep_eq hrun hsleep
  · rw [if_neg hd, if_neg hd]
    rfl

private theorem Queues.block (h : Queues s.thread s.runQueue s.sleepQueue s.running s.idle)
    (hs : (s.thread t).sched = true) (hex : (s.thread t).exited = false) (hr : (s.thread t).isRunnable = true)
    (hq : t = s.running ∨ (s.thread t).queueable = true) :
    Queues (update s.thread t { s.thread t with wakeupTime := d, runnable := false }) (s.runQueue.erase t)
      (if 0 < d then s.sleepQueue ++ [t] else s.sleepQueue) s.running s.idle := by
  have hsleep : t ∉ s.sleepQueue := h.not_mem_sleep (.inl (Bool.eq_false_iff.2 fun hb => by
    rw [not_both hb] at hr
    cases hr))
  have hblocked : ({ s.thread t with wakeupTime := d, runnable := false } : UkThread).isBlocked = true := by
    rw [isBlocked, hex]
    rfl
  refine h.set (fun u hu => ?_) ?_ (h.runNodup.erase t) (fun u hu => ?_) ?_ ?_ (fun _ _ hne => hq.resolve_left hne)
    fun he => ?_
  · rw [h.runNodup.mem_erase_iff]
    exact ⟨And.right, fun hm => ⟨hu, hm⟩⟩
  · rw [not_both hblocked]
    exact ⟨fun hm => absurd hm h.runNodup.not_mem_erase, fun hm => absurd hm.2.1 Bool.false_ne_true⟩
  · split
    · exact mem_append_ne hu
    · exact Iff.rfl
  · split
    next hd =>
      exact ⟨fun _ => ⟨hs, hblocked, hd⟩, fun _ => mem_append_right _ (mem_singleton_self t)⟩
    next hd =>
      exact ⟨fun hm => absurd hm hsleep, fun hm => absurd hm.2.2 hd⟩
  · split
    · exact nodup_append_of_not_mem h.sleepNodup hsleep
    · exact h.sleepNodup
  · rw [he]
    exact h.running

private theorem Queues.postpone (h : Queues s.thread s.runQueue s.sleepQueue s.running s.idle)
    (hd : 0 < d ↔ 0 < (s.thread t).wakeupTime) :
    Queues (update s.thread t { s.thread t with wakeupTime := d }) s.runQueue s.sleepQueue s.running s.idle := by
  refine h.set (fun _ _ => Iff.rfl) (h.mem_run t) h.runNodup (fun _ _ => Iff.rfl) ?_ h.sleepNodup (h.queueable t)
    fun he => ?_
  · rw [h.mem_sleep t, ← hd]
    exact Iff.rfl
  · rw [he]
    exact h.running

private theorem CoopInv.blockUntil (h : CoopInv s) (hphase : s.phase = .none)
    (hidle : (s.thread t).sched = true → t ≠ s.idle)
    (hrun : (s.thread t).sched = true → (s.thread t).isRunnable = true → t = s.current ∨
      (s.thread t).queueable = true)
    (hblk : (s.thread t).sched = true → (s.thread t).isRunnable = false → (0 < d ↔ 0 < (s.thread t).wakeupTime)) :
    CoopInv (s.blockUntil t d) := by
  cases hs : (s.thread t).sched with
  | true =>
    specialize hidle hs
    have hrunning := running_none hphase
    cases hr : (s.thread t).isRunnable with
    | true =>
      rw [blockUntil_eq h hphase hs hr hidle]
      exact h.set (h.queues.block hs (h.alive t hs).1 hr (by rw [hrunning]; exact hrun hs hr)) (h.alive t)
        (fun hi => absurd hi hidle) (h.exited t) (h.phase.set rfl rfl)
    | false =>
      rw [blockUntil_blocked hr]
      exact h.set (h.queues.postpone (hblk hs hr)) (h.alive t) (fun hi => absurd hi hidle) (h.exited t)
        (h.phase.set rfl rfl)
  | false =>
    have hidle' : t ≠ s.idle := by
      rintro rfl
      rw [h.idle.1] at hs
      cases hs
    cases hr : (s.thread t).isRunnable with
    | true =>
      rw [blockUntil_runnable hr, if_neg (by rw [hs]; exact Bool.false_ne_true)]
      exact h.set (h.queues.outside hs hs rfl) (h.alive t) (fun hi => absurd hi hidle') (h.exited t)
        (h.phase.set rfl rfl)
    | false =>
      rw [blockUntil_blocked hr]
      exact h.set (h.queues.outside hs hs rfl) (h.alive t) (fun hi => absurd hi hidle') (h.exited t)
        (h.phase.set rfl rfl)

end

section
variable {T : Type} [DecidableEq T] {s : Coop T} {t u : T} {thread' : T → UkThread} {next : T} {run' : List T}

private theorem Coop.wake_phase : (s.wake t).phase = s.phase := by
  unfold wake threadWoken removeSleep insertRun assert modify
  dsimp only
  split_ifs <;> rfl

/-- The scheduler before it chooses a thread: `current` runs or has exited. -/
structure Choosing (s : Coop T) : Prop where
  inv : CoopInv s
  running : s.running = s.current
  current : (s.thread s.current).isRunnable = true → (s.thread s.current).sched = true

omit [DecidableEq T] in
private theorem CoopInv.choosing (h : CoopInv s) (hp : s.phase = .none ∨ s.phase = .exiting) : Choosing s := by
  have hphase := h.phase
  rcases hp with hp | hp
  · rw [hp] at hphase
    exact ⟨h, by rw [running, hp]; rfl, fun _ => hphase⟩
  · rw [hp] at hphase
    refine ⟨h, by rw [running, hp]; rfl, fun hr => ?_⟩
    rw [UkThread.isRunnable, show (s.thread s.current).exited = true from hphase] at hr
    cases hr

private theorem CoopInv.expire (h : CoopInv s) (hp : s.phase = .none ∨ s.phase = .exiting) : Choosing s.expire := by
  have hfold : CoopInv s.expire ∧ (s.expire.phase = .none ∨ s.expire.phase = .exiting) := by
    refine List.foldlRecOn (motive := fun s : Coop T => CoopInv s ∧ (s.phase = .none ∨ s.phase = .exiting))
      s.sleepQueue _ ⟨h, hp⟩ fun s hs t _ => ?_
    split
    · exact ⟨hs.1.wake, by rw [wake_phase]; exact hs.2⟩
    · exact hs
  exact hfold.1.choosing hfold.2

private theorem Queues.switch {thread : T → UkThread} {run sleep : List T} {current idle : T}
    (h : Queues thread run sleep current idle) (hne : next ≠ current)
    (hrun : ∀ u, u ≠ current → u ≠ next → (u ∈ run' ↔ u ∈ run))
    (hcur : current ∈ run' ↔ (thread current).sched = true ∧ (thread current).isRunnable = true ∧ current ≠ idle)
    (hnext : next ∉ run') (hn : run'.Nodup) (hsame : ∀ u, u ≠ current → u ≠ next → thread' u = thread u)
    (hout : thread' current = { thread current with queueable := true })
    (hin : thread' next = { thread next with queueable := false }) : Queues thread' run' sleep next idle := by
  have hflag : ∀ u, ∃ b, thread' u = { thread u with queueable := b } := by
    intro u
    by_cases huc : u = current
    · exact ⟨true, by rw [huc, hout]⟩
    · by_cases hun : u = next
      · exact ⟨false, by rw [hun, hin]⟩
      · exact ⟨(thread u).queueable, by rw [hsame u huc hun]⟩
  refine ⟨fun u => ?_, hn, fun u => ?_, h.sleepNodup, fun u hs hb hun => ?_, by rw [hin]⟩
  · obtain ⟨b, hb⟩ := hflag u
    rw [hb]
    by_cases hun : u = next
    · subst hun
      exact ⟨fun hm => absurd hm hnext, fun hm => absurd rfl hm.2.2.1⟩
    · by_cases huc : u = current
      · subst huc
        rw [hcur]
        exact ⟨fun hm => ⟨hm.1, hm.2.1, hun, hm.2.2⟩, fun hm => ⟨hm.1, hm.2.1, hm.2.2.2⟩⟩
      · rw [hrun u huc hun, h.mem_run]
        exact ⟨fun hm => ⟨hm.1, hm.2.1, hun, hm.2.2.2⟩, fun hm => ⟨hm.1, hm.2.1, huc, hm.2.2.2⟩⟩
  · obtain ⟨b, hb⟩ := hflag u
    rw [hb]
    exact h.mem_sleep u
  · by_cases huc : u = current
    · rw [huc, hout]
    · rw [hsame u huc hun] at hs hb ⊢
      exact h.queueable u hs hb huc

structure Chosen (s : Coop T) (next : T) (run' : List T) : Prop where
  ne : next ≠ s.current
  sched : (s.thread next).sched = true
  others : ∀ u, u ≠ s.current → u ≠ next → (u ∈ run' ↔ u ∈ s.runQueue)
  current : s.current ∈ run' ↔
    (s.thread s.current).sched = true ∧ (s.thread s.current).isRunnable = true ∧ s.current ≠ s.idle
  next : next ∉ run'
  nodup : run'.Nodup

private theorem Choosing.pick (h : Choosing s) : (s.pick = (s.current, s) ∧ (s.thread s.current).sched = true) ∨
      ∃ next run', s.pick = (next, { s with runQueue := run' }) ∧ Chosen s next run' := by
  have hq := h.inv.queues
  rw [h.running] at hq
  have hcurRun : s.current ∉ s.runQueue := hq.not_mem_run (.inr rfl)
  cases hrun : s.runQueue with
  | nil =>
    cases hr : (s.thread s.current).isRunnable with
    | true =>
      refine .inl ⟨?_, h.current hr⟩
      rw [Coop.pick, hrun]
      rw [if_pos hr]
    | false =>
      right
      have hidle : s.idle ≠ s.current := by
        intro he
        rw [← he, UkThread.isRunnable_eq (h.inv.alive _ h.inv.idle.1).1, h.inv.idle.2] at hr
        cases hr
      refine ⟨s.idle, [], ?_, hidle, h.inv.idle.1, fun u _ _ => by rw [hrun], ?_, not_mem_nil, nodup_nil⟩
      · rw [Coop.pick, hrun]
        dsimp only
        rw [if_neg (by rw [hr]; exact Bool.false_ne_true), ← hrun]
      · rw [hr]
        exact ⟨fun hm => absurd hm not_mem_nil, fun hm => absurd hm.2.1 Bool.false_ne_true⟩
  | cons next rest =>
    right
    have hn := hq.runNodup
    rw [hrun] at hn hcurRun
    obtain ⟨hs, hr, hne, -⟩ := (hq.mem_run next).1 (by rw [hrun]; exact mem_cons_self)
    have hassert : s.assert (decide (next ≠ s.current) && (s.thread next).isRunnable) = s :=
      assert_eq h.inv.failed (by rw [hr, decide_eq_true hne]; rfl)
    have hcur : s.current ∉ rest := fun hm => hcurRun (mem_cons_of_mem _ hm)
    have hmem : ∀ u, u ≠ next → (u ∈ rest ↔ u ∈ s.runQueue) := by
      intro u hu
      rw [hrun, mem_cons]
      exact ⟨.inr, fun hm => hm.resolve_left hu⟩
    by_cases hback : s.current ≠ s.idle ∧ (s.thread s.current).isRunnable = true
    · have hsleep : s.current ∉ s.sleepQueue := hq.not_mem_sleep (.inl (Bool.eq_false_iff.2 fun hb => by
        rw [UkThread.not_both hb] at hback
        cases hback.2))
      refine ⟨next, rest ++ [s.current], ?_, hne, hs, fun u huc hun => ?_, ?_, ?_, ?_⟩
      · rw [Coop.pick, hrun]
        dsimp only
        rw [hassert, if_pos hback]
        exact congrArg _ (insertRun_eq hcur hsleep)
      · rw [mem_append_ne huc, hmem u hun]
      · exact ⟨fun _ => ⟨h.current hback.2, hback.2, hback.1⟩,
          fun _ => mem_append_right _ (mem_singleton_self _)⟩
      · rw [mem_append_ne hne]
        exact (nodup_cons.1 hn).1
      · exact nodup_append_of_not_mem (nodup_cons.1 hn).2 hcur
    · refine ⟨next, rest, ?_, hne, hs, fun u _ hun => hmem u hun, ?_, (nodup_cons.1 hn).1, (nodup_cons.1 hn).2⟩
      · rw [Coop.pick, hrun]
        dsimp only
        rw [hassert, if_neg hback]
      · exact ⟨fun hm => absurd hm hcur, fun hm => absurd ⟨hm.2.2, hm.2.1⟩ hback⟩

private theorem Chosen.flags (h : Chosen s next run')
    (he : thread' = update (update s.thread s.current { s.thread s.current with queueable := true }) next
      { s.thread next with queueable := false }) :
    (∀ u, u ≠ s.current → u ≠ next → thread' u = s.thread u) ∧
      thread' s.current = { s.thread s.current with queueable := true } ∧
      thread' next = { s.thread next with queueable := false } ∧
      ∀ u, ∃ b, thread' u = { s.thread u with queueable := b } := by
  subst he
  have hcur : update (update s.thread s.current { s.thread s.current with queueable := true }) next
      { s.thread next with queueable := false } s.current = { s.thread s.current with queueable := true } := by
    rw [update_of_ne h.ne.symm, update_self]
  have hothers : ∀ u, u ≠ s.current → u ≠ next →
      update (update s.thread s.current { s.thread s.current with queueable := true }) next
        { s.thread next with queueable := false } u = s.thread u := by
    intro u huc hun
    rw [update_of_ne hun, update_of_ne huc]
  refine ⟨hothers, hcur, update_self .., fun u => ?_⟩
  by_cases hun : u = next
  · exact ⟨false, by rw [hun, update_self]⟩
  · by_cases huc : u = s.current
    · exact ⟨true, by rw [huc, hcur]⟩
    · exact ⟨(s.thread u).queueable, hothers u huc hun⟩

private theorem CoopInv.schedule (h : CoopInv s) (hp : s.phase = .none ∨ s.phase = .exiting) :
    CoopInv s.schedule := by
  have hc := h.expire hp
  unfold Coop.schedule
  revert hc
  generalize s.expire = s
  intro hc
  have hq := hc.inv.queues
  rw [hc.running] at hq
  rcases hc.pick with ⟨hpick, hs⟩ | ⟨next, run', hpick, hch⟩
  · rw [hpick]
    dsimp only
    rw [if_neg (not_not_intro rfl)]
    exact ⟨hq, hc.inv.alive, hc.inv.idle, hc.inv.exited, hc.inv.exitedNodup, hs, hc.inv.failed⟩
  · have hnext : update s.thread s.current { s.thread s.current with queueable := true } next = s.thread next :=
      update_of_ne hch.ne ..
    rw [hpick]
    dsimp only
    rw [if_pos hch.ne]
    unfold Coop.modify
    dsimp only
    rw [hnext]
    obtain ⟨hothers, hout, hin, hflag⟩ := hch.flags rfl
    refine ⟨hq.switch hch.ne hch.others hch.current hch.next hch.nodup hothers hout hin, fun u => ?_, ?_,
        fun u hu => ?_,
      hc.inv.exitedNodup, ?_, hc.inv.failed⟩
    · obtain ⟨b, hb⟩ := hflag u
      dsimp only
      rw [hb]
      exact hc.inv.alive u
    · obtain ⟨b, hb⟩ := hflag s.idle
      dsimp only
      rw [hb]
      exact hc.inv.idle
    · obtain ⟨b, hb⟩ := hflag u
      dsimp only
      rw [hb]
      exact hc.inv.exited u hu
    · change (update (update s.thread s.current _) next _ next).sched = true
      rw [update_self]
      exact hch.sched

section
variable (h : CoopInv s)
include h

omit [DecidableEq T] in
private theorem CoopInv.absent (hs : (s.thread t).sched = false) :
    t ∉ s.runQueue ∧ t ∉ s.sleepQueue ∧ t ≠ s.idle := by
  refine ⟨fun hm => ?_, fun hm => ?_, ?_⟩
  · rw [((h.queues.mem_run t).1 hm).1] at hs
    cases hs
  · rw [((h.queues.mem_sleep t).1 hm).1] at hs
    cases hs
  · rintro rfl
    rw [h.idle.1] at hs
    cases hs

omit [DecidableEq T] in
private theorem CoopInv.current_sched (hp : s.phase = .none) : (s.thread s.current).sched = true := by
  have hphase := h.phase
  rw [hp] at hphase
  exact hphase

private theorem CoopInv.create (hp : s.phase = .none) (hrel : (s.thread t).released = true) :
    CoopInv (s.create t true) := by
  have hs : (s.thread t).sched = false := Bool.eq_false_iff.2 fun hs => by
    rw [(h.alive t hs).2] at hrel
    cases hrel
  obtain ⟨hrun, hsleep, hidle⟩ := h.absent hs
  have hcur : s.current ≠ t := by
    rintro rfl
    rw [h.current_sched hp] at hs
    cases hs
  have he : s.create t true = { s with
        thread := update s.thread t ⟨true, false, false, 0, true, false⟩
        runQueue := s.runQueue ++ [t] } := by
    unfold Coop.create
    dsimp only
    rw [modify_thread]
    exact (if_pos rfl).trans (insertRun_eq hrun hsleep)
  rw [he]
  refine h.set ?_ (fun _ => ⟨rfl, rfl⟩) (fun hi => absurd hi hidle) (fun hm => ?_) ?_
  · refine h.queues.set (fun u hu => mem_append_ne hu) ?_ (nodup_append_of_not_mem h.queues.runNodup hrun)
      (fun _ _ => Iff.rfl) ?_ h.queues.sleepNodup (fun _ hb => absurd hb (by decide)) fun _ => rfl
    · refine ⟨fun _ => ⟨rfl, rfl, ?_, hidle⟩, fun _ => mem_append_right _ (mem_singleton_self t)⟩
      rw [running_none hp]
      exact hcur.symm
    · exact ⟨fun hm => absurd hm hsleep, fun hm => absurd hm.2.1 (by decide)⟩
  · rw [(h.exited t hm).2] at hrel
    cases hrel
  · rw [hp]
    change (update s.thread t _ s.current).sched = true
    rw [update_of_ne hcur]
    exact h.current_sched hp

private theorem Coop.threadRemove_eq (hp : s.phase = .none) (hs : (s.thread t).sched = true) (hidle : t ≠ s.idle) :
    s.threadRemove t =
      { s with
        thread := update s.thread t { s.thread t with sched := false }
        runQueue := s.runQueue.erase t } := by
  have hdrop : (if (t ≠ s.current && (s.thread t).isRunnable) = true then s.removeRun t else s) =
      { s with runQueue := s.runQueue.erase t } := by
    by_cases hm : t ∈ s.runQueue
    · obtain ⟨-, hr, hne, -⟩ := (h.queues.mem_run t).1 hm
      rw [running_none hp] at hne
      rw [hr, decide_eq_true hne, Bool.and_self, if_pos rfl, removeRun_eq hm]
    · have hcond : ¬ (t ≠ s.current && (s.thread t).isRunnable) = true := by
        intro hc
        rw [Bool.and_eq_true, decide_eq_true_eq] at hc
        refine hm ((h.queues.mem_run t).2 ⟨hs, hc.2, ?_, hidle⟩)
        rw [running_none hp]
        exact hc.1
      rw [if_neg hcond, erase_of_not_mem hm]
  unfold threadRemove
  rw [hdrop]
  rfl

end

private theorem Queues.leave (h : Queues s.thread s.runQueue s.sleepQueue s.running s.idle)
    (hsleep : t ∉ s.sleepQueue) {x : UkThread} (hs : x.sched = false) (hq : x.queueable = (s.thread t).queueable) :
    Queues (update s.thread t x) (s.runQueue.erase t) s.sleepQueue s.running s.idle := by
  refine h.set (fun u hu => ?_) ?_ (h.runNodup.erase t) (fun _ _ => Iff.rfl) ?_ h.sleepNodup (fun hs' => ?_)
    fun he => ?_
  · rw [h.runNodup.mem_erase_iff]
    exact ⟨And.right, fun hm => ⟨hu, hm⟩⟩
  · rw [hs]
    exact ⟨fun hm => absurd hm h.runNodup.not_mem_erase, fun hm => absurd hm.1 Bool.false_ne_true⟩
  · rw [hs]
    exact ⟨fun hm => absurd hm hsleep, fun hm => absurd hm.1 Bool.false_ne_true⟩
  · rw [hs] at hs'
    cases hs'
  · rw [hq, he]
    exact h.running

section
variable (h : CoopInv s)
include h

omit [DecidableEq T] in
private theorem CoopInv.addExited (hnot : t ∉ s.exitedThreads)
    (ht : (s.thread t).exited = true ∧ (s.thread t).released = false) :
    CoopInv { s with exitedThreads := s.exitedThreads ++ [t] } := by
  refine ⟨h.queues, h.alive, h.idle, fun u hu => ?_, nodup_append_of_not_mem h.exitedNodup hnot, h.phase, h.failed⟩
  rcases mem_append.1 hu with hu | hu
  · exact h.exited u hu
  · rw [mem_singleton.1 hu]
    exact ht

private theorem CoopInv.terminate (hp : s.phase = .none) (hs : (s.thread t).sched = true) (hidle : t ≠ s.idle)
    (hsleep : t ∉ s.sleepQueue) : CoopInv (s.terminate t) := by
  have hrunning := running_none hp
  obtain ⟨hex, hrel⟩ := h.alive t hs
  unfold Coop.terminate
  rw [assert_eq h.failed hs, threadRemove_eq h hp hs hidle]
  dsimp only
  split
  next hcur =>
    have hnot : t ∉ s.exitedThreads := fun hm => by
      rw [(h.exited t hm).1] at hex
      cases hex
    unfold Coop.modify
    dsimp only
    rw [update_self, update_idem]
    have hleft : CoopInv { s with
        thread := update s.thread t { s.thread t with sched := false, exited := true }
        runQueue := s.runQueue.erase t
        phase := .exiting } := by
      refine h.set (x := { s.thread t with sched := false, exited := true })
        ?_ (fun hs' => absurd hs' Bool.false_ne_true)
        (fun hi => absurd hi hidle) (fun hm => absurd hm hnot) ?_
      · have hq := h.queues.leave (x := { s.thread t with sched := false, exited := true }) hsleep rfl rfl
        rwa [hrunning] at hq
      · change (update s.thread t _ s.current).exited = true
        rw [← hcur, update_self]
    refine hleft.addExited hnot ?_
    change (update s.thread t _ t).exited = true ∧ (update s.thread t _ t).released = false
    rw [update_self]
    exact ⟨rfl, hrel⟩
  next hcur =>
    refine h.set (x := { s.thread t with sched := false }) ?_ (fun hs' => absurd hs' Bool.false_ne_true)
      (fun hi => absurd hi hidle) (h.exited t) ⟨?_, ?_⟩
    · have hq := h.queues.leave (x := { s.thread t with sched := false }) hsleep rfl rfl
      rwa [hrunning] at hq
    · rw [update_of_ne (Ne.symm hcur)]
      exact h.current_sched hp
    · rw [update_self]
      exact ⟨rfl, hex⟩

private theorem CoopInv.release (hp : s.phase = .terminating t) : CoopInv { s.release t with phase := .none } := by
  have hphase := h.phase
  rw [hp] at hphase
  obtain ⟨hcur, hs, hex⟩ := hphase
  have hrunning : s.running = s.current := by
    rw [running, hp]
    rfl
  refine h.set ?_ (fun hs' => ?_)
    (fun hi => absurd hi (h.absent hs).2.2) (fun hm => ?_) ?_
  · have hq := h.queues.outside (x := { s.thread t with exited := true, released := true }) hs hs rfl
    rwa [hrunning] at hq
  · rw [show (s.thread t).sched = true from hs'] at hs
    cases hs
  · rw [(h.exited t hm).1] at hex
    cases hex
  · change (update s.thread t _ s.current).sched = true
    by_cases hct : s.current = t
    · rw [← hct, hcur] at hs
      cases hs
    · rw [update_of_ne hct]
      exact hcur

private theorem CoopInv.gcOne (hp : s.phase = .none) (hm : t ∈ s.exitedThreads) :
    CoopInv { (s.assert (t ≠ s.current && (s.thread t).exited)).release t with
      exitedThreads := s.exitedThreads.erase t } := by
  obtain ⟨hex, -⟩ := h.exited t hm
  have hs : (s.thread t).sched = false := Bool.eq_false_iff.2 fun hs => by
    rw [(h.alive t hs).1] at hex
    cases hex
  have hcur : t ≠ s.current := by
    rintro rfl
    rw [h.current_sched hp] at hs
    cases hs
  have hdrop : CoopInv { s with exitedThreads := s.exitedThreads.erase t } :=
    ⟨h.queues, h.alive, h.idle, fun u hu => h.exited u (mem_of_mem_erase hu), h.exitedNodup.erase t, h.phase,
        h.failed⟩
  rw [assert_eq h.failed (by rw [hex, decide_eq_true hcur]; rfl)]
  refine hdrop.set (h.queues.outside hs hs rfl)
    (fun hs' => ?_) (fun hi => absurd hi (h.absent hs).2.2) (fun hm' => absurd hm' h.exitedNodup.not_mem_erase)
    (h.phase.set rfl hex.symm)
  rw [show (s.thread t).sched = true from hs'] at hs
  cases hs

private theorem CoopInv.threadGc (hp : s.phase = .none) : CoopInv s.threadGc := by
  suffices hfold : ∀ (l : List T) (s : Coop T), CoopInv s → s.phase = .none → (∀ t ∈ l, t ∈ s.exitedThreads) →
    l.Nodup →
      CoopInv (l.foldl (fun s t => { (s.assert (t ≠ s.current && (s.thread t).exited)).release t with
        exitedThreads := s.exitedThreads.erase t }) s) from
    hfold s.exitedThreads s h hp (fun _ hm => hm) h.exitedNodup
  intro l
  induction l with
  | nil => exact fun _ h _ _ _ => h
  | cons t l ih =>
    intro s h hp hl hn
    obtain ⟨ht, hn⟩ := nodup_cons.1 hn
    refine ih _ (h.gcOne hp (hl t mem_cons_self)) hp (fun u hu => ?_) hn
    refine (h.exitedNodup.mem_erase_iff).2 ⟨?_, hl u (mem_cons_of_mem _ hu)⟩
    rintro rfl
    exact ht hu

end

/-- No thread is added blocked, nothing is done to the idle thread, a thread of the scheduler that gets blocked is
running or queueable, blocking a blocked thread again does not give it a deadline or take it away, and a thread that
sleeps is not terminated. -/
def Coop.fine (s : Coop T) : CoopAct T → Bool
  | .create _ runnable => runnable
  | .blockUntil t deadline =>
    !(s.thread t).sched || (t ≠ s.idle &&
      if (s.thread t).isRunnable then t = s.current || (s.thread t).queueable
      else decide (0 < deadline) == decide (0 < (s.thread t).wakeupTime))
  | .terminate t =>
    (s.thread t).sched && t ≠ s.idle && !((s.thread t).isBlocked && 0 < (s.thread t).wakeupTime)
  | _ => true

private theorem CoopInv.start (main idle : T) : CoopInv (start main idle) := by
  have hsched : ∀ {t : T}, ((Coop.start main idle).thread t).sched = true → t = main ∨ t = idle :=
    fun hs => of_decide_eq_true hs
  refine ⟨⟨fun t => ?_, nodup_nil, fun t => ?_, nodup_nil, fun t _ hb => ?_, rfl⟩, fun t hs => ⟨rfl, ?_⟩, ⟨?_, rfl⟩,
    fun t hm => ?_, nodup_nil, ?_, rfl⟩
  · refine ⟨fun hm => absurd hm not_mem_nil, fun ⟨hs, _, hm, hi⟩ => ?_⟩
    exact absurd (hsched hs) (not_or.2 ⟨hm, hi⟩)
  · exact ⟨fun hm => absurd hm not_mem_nil, fun hm => absurd hm.2.1 Bool.false_ne_true⟩
  · exact absurd hb Bool.false_ne_true
  · exact decide_eq_false fun hne => not_or.2 hne (hsched hs)
  · exact decide_eq_true (.inr rfl)
  · exact absurd hm not_mem_nil
  · exact decide_eq_true (.inl rfl)

private theorem CoopInv.blockUntil_of_fine {d : Int} (h : CoopInv s) (hp : s.phase = .none)
    (ha : s.fine (.blockUntil t d) = true) :
    CoopInv (s.blockUntil t d) := by
  have hsched : (s.thread t).sched = true → t ≠ s.idle ∧
      (if (s.thread t).isRunnable then t = s.current || (s.thread t).queueable
        else decide (0 < d) == decide (0 < (s.thread t).wakeupTime)) = true := by
    intro hs
    rw [fine, hs, Bool.not_true, Bool.false_or, Bool.and_eq_true, decide_eq_true_eq] at ha
    exact ha
  refine h.blockUntil hp (fun hs => (hsched hs).1) (fun hs hr => ?_) fun hs hr => ?_
  · have hq := (hsched hs).2
    rw [if_pos hr, Bool.or_eq_true, decide_eq_true_eq] at hq
    exact hq
  · have hd := (hsched hs).2
    rw [if_neg (by rw [hr]; exact Bool.false_ne_true), beq_iff_eq, decide_eq_decide] at hd
    exact hd

private theorem CoopInv.terminate_of_fine (h : CoopInv s) (hp : s.phase = .none) (ha : s.fine (.terminate t) = true) :
    CoopInv (s.terminate t) := by
  rw [fine, Bool.and_eq_true, Bool.and_eq_true, decide_eq_true_eq] at ha
  obtain ⟨⟨hs, hidle⟩, hawake⟩ := ha
  refine h.terminate hp hs hidle fun hm => ?_
  obtain ⟨-, hb, hw⟩ := (h.queues.mem_sleep t).1 hm
  rw [hb, decide_eq_true hw] at hawake
  cases hawake

private theorem CoopInv.wake_unreleased (h : CoopInv s) :
    CoopInv (if (s.thread t).released then s else s.wake t) := by
  split
  · exact h
  · exact h.wake

omit [DecidableEq T] in
private theorem CoopInv.tick {d : Nat} {p : Phase T} (h : CoopInv s) (hp : s.phase = p) :
    CoopInv { s with clock := s.clock + d, phase := p } := by
  subst hp
  exact ⟨h.queues, h.alive, h.idle, h.exited, h.exitedNodup, h.phase, h.failed⟩

omit [DecidableEq T] in
private theorem CoopInv.switch (h : CoopInv s) (hp : s.phase = .switching next) :
    CoopInv { s with current := next, phase := .none } := by
  have hphase := h.phase
  have hq := h.queues
  rw [running] at hq
  rw [hp] at hphase hq
  exact ⟨hq, h.alive, h.idle, h.exited, h.exitedNodup, hphase, h.failed⟩

/-- Every step of the scheduler keeps the invariant. -/
theorem CoopInv.step {a : CoopAct T} (h : CoopInv s) (ha : s.fine a = true) : CoopInv (s.step a) := by
  unfold Coop.step
  rw [if_neg (by rw [h.failed]; exact Bool.false_ne_true)]
  cases hp : s.phase with
  | none =>
    cases a with
    | create t r =>
      dsimp only
      split
      · rename_i hrel
        rw [show r = true from ha]
        exact h.create hp hrel
      · exact h
    | blockUntil t d =>
      dsimp only
      split
      · exact h
      · exact h.blockUntil_of_fine hp ha
    | terminate t =>
      dsimp only
      split
      · exact h
      · exact h.terminate_of_fine hp ha
    | gc =>
      dsimp only
      split
      · exact h.threadGc hp
      · exact h
    | schedule => exact h.schedule (.inl hp)
    | wake t => exact h.wake_unreleased
    | tick d => exact h.tick hp
    | switch | release => exact h
  | switching next =>
    cases a with
    | switch => exact h.switch hp
    | wake t => exact h.wake_unreleased
    | tick d => exact h.tick hp
    | create | blockUntil | terminate | gc | schedule | release => exact h
  | exiting =>
    cases a with
    | schedule => exact h.schedule (.inr hp)
    | wake t => exact h.wake_unreleased
    | tick d => exact h.tick hp
    | create | blockUntil | terminate | gc | switch | release => exact h
  | terminating y =>
    cases a with
    | release => exact h.release hp
    | wake t => exact h.wake_unreleased
    | tick d => exact h.tick hp
    | create | blockUntil | terminate | gc | schedule | switch => exact h

omit [DecidableEq T] in
/-- What the queues hold when no function of the scheduler is in progress, and that no assertion has failed. -/
structure CoopExact (s : Coop T) : Prop where
  run : s.phase = .none → ∀ t, t ∈ s.runQueue ↔
    (s.thread t).sched = true ∧ (s.thread t).isRunnable = true ∧ t ≠ s.current ∧ t ≠ s.idle
  runNodup : s.runQueue.Nodup
  sleep : s.phase = .none → ∀ t, t ∈ s.sleepQueue ↔
    (s.thread t).sched = true ∧ (s.thread t).isBlocked = true ∧ (s.thread t).released = false ∧
      0 < (s.thread t).wakeupTime
  sleepNodup : s.sleepQueue.Nodup
  unreleased : ∀ t, t ∈ s.runQueue ∨ t ∈ s.sleepQueue → (s.thread t).released = false
  failed : s.failed = false

omit [DecidableEq T] in
private theorem CoopInv.exact (h : CoopInv s) : CoopExact s := by
  refine ⟨fun hp t => ?_, h.queues.runNodup, fun _ t => ?_, h.queues.sleepNodup, fun t hm => ?_, h.failed⟩
  · rw [h.queues.mem_run, running_none hp]
  · rw [h.queues.mem_sleep]
    exact ⟨fun hm => ⟨hm.1, hm.2.1, (h.alive t hm.1).2, hm.2.2⟩, fun hm => ⟨hm.1, hm.2.1, hm.2.2.2⟩⟩
  · rcases hm with hm | hm
    · exact (h.alive t ((h.queues.mem_run t).1 hm).1).2
    · exact (h.alive t ((h.queues.mem_sleep t).1 hm).1).2

/-- In every run that meets the condition the queues are exact. -/
theorem coop_queues_exact {main idle : T} {as : List (CoopAct T)}
    (h : Meets step (fun s a => s.fine a = true) (start main idle) as) :
    Always step CoopExact (start main idle) as :=
  h.always (fun _ _ hs ha => hs.step ha) (fun _ hs => hs.exact) (CoopInv.start main idle)

end

/-- A thread runs, sleeps and is woken by its deadline; another one exits and is released by the idle thread. -/
theorem coop_queues_exact_four : Always step CoopExact (start 0 1 : Coop (Fin 4))
    [.create 2 true, .create 3 true, .schedule, .switch, .blockUntil 2 5, .schedule, .switch, .terminate 3, .schedule,
      .switch,
      .blockUntil 0 0, .schedule, .wake 0, .switch, .gc, .tick 7, .schedule, .switch, .schedule, .switch] :=
  coop_queues_exact (by decide +kernel)

/-- A thread that has not run yet is blocked and woken: it is runnable, and in no queue. -/
theorem not_coop_queues_exact : ¬ Always step CoopExact (start 0 1 : Coop (Fin 3))
    [.create 2 true, .blockUntil 2 0, .wake 2] := by
  intro h
  have hbad := (h.last.run rfl 2).2 (by decide +kernel)
  revert hbad
  decide +kernel

end Unikraft.Sched
