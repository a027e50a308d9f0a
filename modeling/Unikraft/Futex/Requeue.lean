import Mathlib.Algebra.Group.Nat.Defs
import Mathlib.Data.Fintype.Basic
import Mathlib.Data.List.TakeWhile
import Unikraft.Lib.Runs

/-!
# Futexes

`futex_wait` compares the word with the expected value, puts an entry into `futex_list`, blocks the thread and yields.
It searches by the address it was called with, so an entry that was requeued is missed; and a wake that comes after
the comparison and before the thread is blocked is lost. Since a thread read the word, a wake may have removed its
entry (`woken`), the word may have `changed`, and after that all waiters may have been woken (`owed`). The loop of
`futex_wake` counts before it compares, and that of `futex_cmp_requeue` meets the entries it has moved.
-/

namespace Unikraft.Futex

open Function (update)

structure UkFutex (T A : Type) where
  uaddr : A
  thread : T
  deriving DecidableEq

inductive Pc (A V : Type)
  | user
  /-- `futex_wait`: the load, the section that adds the entry, `uk_thread_block_until`, `uk_sched_yield`, and the
  section that looks for the entry. -/
  | load (uaddr : A) (val : V) (timeout : Bool)
  | enqueue (uaddr : A) (timeout : Bool)
  | block (uaddr : A) (timeout : Bool)
  | yield (uaddr : A) (timeout : Bool)
  | look (uaddr : A)
  /-- `futex_cmp_requeue`: the load, `futex_wake`, and the section that requeues. -/
  | cmp (uaddr : A) (val val2 : Nat) (uaddr2 : A) (val3 : V)
  | reqWake (uaddr : A) (val val2 : Nat) (uaddr2 : A)
  | requeue (uaddr : A) (val2 : Nat) (uaddr2 : A)
  deriving DecidableEq

inductive WaitResult
  | ok
  | EAGAIN
  | ETIMEDOUT
  deriving DecidableEq

def Pc.queued {A V : Type} : Pc A V → Bool
  | .block _ _ | .yield _ _ | .look _ => true
  | _ => false

def Pc.early {A V : Type} : Pc A V → Bool
  | .enqueue _ _ | .block _ _ => true
  | _ => false

def Pc.word {A V : Type} : Pc A V → Option A
  | .enqueue a _ | .block a _ | .yield a _ | .look a => some a
  | _ => none

structure State (T A V : Type) where
  mem : A → V
  futexList : List (UkFutex T A)
  blocked : T → Bool
  pc : T → Pc A V
  woken : T → Bool
  changed : T → Bool
  owed : T → Bool
  /-- What the last call of `futex_wait` has returned, with `woken`. -/
  ret : T → Option (WaitResult × Bool)

section
variable {T A V : Type} [DecidableEq A]

/-- The loop of `futex_wake` for `uaddr`, after `count` threads: the list and the threads that are woken. -/
def wakeLoop (uaddr : A) (val : Nat) : Nat → List (UkFutex T A) → List (UkFutex T A) × List T
  | _, [] => ([], [])
  | count, f :: l =>
    if f.uaddr = uaddr then
      if val ≤ count + 1 then (l, [f.thread])
      else
        let r := wakeLoop uaddr val (count + 1) l
        (r.1, f.thread :: r.2)
    else
      let r := wakeLoop uaddr val count l
      (f :: r.1, r.2)

/-- The loop of `futex_cmp_requeue` at the entries `rest`, when `left` more may be requeued. An entry that is requeued
goes to the end of the list, where the loop finds it again, unless it was the last one. -/
def requeueLoop (uaddr uaddr2 : A) : Nat → List (UkFutex T A) → List (UkFutex T A) → List (UkFutex T A)
  | 0, pre, rest => pre ++ rest
  | left + 1, pre, rest =>
    let pre' := pre ++ rest.takeWhile fun f => decide (f.uaddr ≠ uaddr)
    match rest.dropWhile fun f => decide (f.uaddr ≠ uaddr) with
    | [] => pre'
    | f :: rest' =>
      let f' := { f with uaddr := uaddr2 }
      if rest'.isEmpty then pre' ++ [f'] else requeueLoop uaddr uaddr2 left pre' (rest' ++ [f'])

variable [DecidableEq T] [DecidableEq V]

namespace State

variable (s : State T A V)

def goto (t : T) (p : Pc A V) : State T A V := { s with pc := update s.pc t p }

/-- The thread waits at the address: it is about to add its entry there, or its entry is there. -/
def waitsAt (u : T) (a : A) : Bool :=
  match s.pc u with
  | .enqueue b _ => decide (b = a)
  | .block _ _ | .yield _ _ | .look _ => decide (⟨a, u⟩ ∈ s.futexList)
  | _ => false

def wakesAll (uaddr : A) (val : Nat) : Bool :=
  (wakeLoop uaddr val 0 s.futexList).1.all fun f => decide (f.uaddr ≠ uaddr)

def futexWake (uaddr : A) (val : Nat) : State T A V :=
  let r := wakeLoop uaddr val 0 s.futexList
  { s with
    futexList := r.1
    blocked := fun u => s.blocked u && decide (u ∉ r.2)
    woken := fun u => s.woken u || decide (u ∈ r.2)
    owed := fun u => s.owed u || s.changed u && s.wakesAll uaddr val && s.waitsAt u uaddr }

def exec (t : T) : State T A V :=
  match s.pc t with
  | .user => s
  | .load a v timeout =>
    if s.mem a ≠ v then { s.goto t .user with ret := update s.ret t (some (.EAGAIN, false)) }
    else
      { s.goto t (.enqueue a timeout) with
        woken := update s.woken t false
        changed := update s.changed t false
        owed := update s.owed t false }
  | .enqueue a timeout => { s.goto t (.block a timeout) with futexList := s.futexList ++ [⟨a, t⟩] }
  | .block a timeout => { s.goto t (.yield a timeout) with blocked := update s.blocked t true }
  | .yield a _ => if s.blocked t then s else s.goto t (.look a)
  | .look a =>
    if ⟨a, t⟩ ∈ s.futexList then
      { s.goto t .user with
        futexList := s.futexList.erase ⟨a, t⟩
        ret := update s.ret t (some (.ETIMEDOUT, s.woken t)) }
    else { s.goto t .user with ret := update s.ret t (some (.ok, s.woken t)) }
  | .cmp a val val2 a2 val3 => if s.mem a = val3 then s.goto t (.reqWake a val val2 a2) else s.goto t .user
  | .reqWake a val val2 a2 => (s.futexWake a val).goto t (if val2 = 0 then .user else .requeue a val2 a2)
  | .requeue a val2 a2 => { s.goto t .user with futexList := requeueLoop a a2 val2 [] s.futexList }

end State

inductive Op (T A V : Type)
  | wait (t : T) (uaddr : A) (val : V) (timeout : Bool)
  | wake (t : T) (uaddr : A) (val : Nat)
  | cmpRequeue (t : T) (uaddr : A) (val val2 : Nat) (uaddr2 : A) (val3 : V)
  | store (t : T) (uaddr : A) (v : V)
  | run (t : T)
  /-- The time of a thread that is blocked with a timeout is over. -/
  | expire (t : T)

def step (s : State T A V) : Op T A V → State T A V
  | .wait t a v timeout => if s.pc t = .user then s.goto t (.load a v timeout) else s
  | .wake t a val => if s.pc t = .user then s.futexWake a val else s
  | .cmpRequeue t a val val2 a2 val3 => if s.pc t = .user then s.goto t (.cmp a val val2 a2 val3) else s
  | .store t a v =>
    if s.pc t = .user then
      { s with
        mem := update s.mem a v
        changed := fun u => s.changed u || decide (s.mem a ≠ v) && decide ((s.pc u).word = some a) }
    else s
  | .run t => s.exec t
  | .expire t =>
    match s.pc t with
    | .yield _ true => { s with blocked := update s.blocked t false }
    | _ => s

end

open List Runs

variable {T A V : Type} [DecidableEq T] [DecidableEq A] [DecidableEq V] {val : Nat}

omit [DecidableEq T] in
private theorem mem_wakeLoop {uaddr : A} {f : UkFutex T A} {l : List (UkFutex T A)} (hf : f ∈ l) (count : Nat) :
    f ∈ (wakeLoop uaddr val count l).1 ∨ f.thread ∈ (wakeLoop uaddr val count l).2 := by
  induction l generalizing count with
  | nil => cases hf
  | cons g l ih =>
    unfold wakeLoop
    rcases mem_cons.1 hf with rfl | hf
    · split_ifs <;> simp
    · split_ifs
      · exact .inl hf
      · exact (ih hf _).imp id (mem_cons_of_mem _)
      · exact (ih hf _).imp (mem_cons_of_mem _) id

private theorem count_wakeLoop (uaddr : A) (val : Nat) (t : T) (l : List (UkFutex T A)) (count : Nat) :
    ((wakeLoop uaddr val count l).1.map UkFutex.thread).count t + (wakeLoop uaddr val count l).2.count t
      = (l.map UkFutex.thread).count t := by
  induction l generalizing count with
  | nil => rfl
  | cons f l ih =>
    unfold wakeLoop
    split_ifs
    · simp [count_cons]
    · have := ih (count + 1)
      simp only [map_cons, count_cons] at this ⊢
      omega
    · have := ih count
      simp only [map_cons, count_cons] at this ⊢
      omega

omit [DecidableEq T] in
private theorem requeueLoop_perm (uaddr uaddr2 : A) (left : Nat) (pre rest : List (UkFutex T A)) :
    ((requeueLoop uaddr uaddr2 left pre rest).map UkFutex.thread).Perm ((pre ++ rest).map UkFutex.thread) := by
  induction left generalizing pre rest with
  | zero => exact List.Perm.refl _
  | succ left ih =>
    have hsplit := takeWhile_append_dropWhile (p := fun f : UkFutex T A => decide (f.uaddr ≠ uaddr)) (l := rest)
    simp only [requeueLoop]
    generalize rest.takeWhile _ = skipped at hsplit ⊢
    split
    next hdrop =>
      rw [← hsplit, hdrop, append_nil]
    next f rest' hdrop =>
      rw [← hsplit, hdrop]
      split_ifs with hlast
      · rw [isEmpty_iff.1 hlast]
        simp
      · refine (ih _ _).trans ?_
        simp only [map_append, map_cons, map_nil, append_assoc]
        exact ((perm_append_singleton _ _).append_left _).append_left _

namespace State

variable (s : State T A V)

def entries (t : T) : Nat := (s.futexList.map UkFutex.thread).count t

/-- The thread has added its entry, has not returned, and no wake has removed the entry. -/
def waiting (t : T) : Bool := (s.pc t).queued && !s.woken t

/-- If all waiters at the address are woken, those for which the word has changed are blocked. -/
def wakeFine (a : A) (val : Nat) : Prop :=
  s.wakesAll a val = true → ∀ u, s.changed u = true → s.waitsAt u a = true → (s.pc u).early = false

def runFine (t : T) : Prop :=
  match s.pc t with
  | .look a => ∀ f ∈ s.futexList, f.thread = t → f.uaddr = a
  | .reqWake a val _ _ => s.wakeFine a val
  | _ => True

def fine : Op T A V → Prop
  | .wake _ a val => s.wakeFine a val
  | .run t => s.runFine t
  | _ => True

instance [Fintype T] (s : State T A V) (a : A) (val : Nat) : Decidable (s.wakeFine a val) :=
  inferInstanceAs (Decidable (_ → ∀ _, _ → _ → _))

instance [Fintype T] (s : State T A V) (t : T) : Decidable (s.runFine t) := by
  unfold runFine
  cases s.pc t <;> infer_instance

instance [Fintype T] (s : State T A V) : ∀ o, Decidable (s.fine o)
  | .wake _ a val => inferInstanceAs (Decidable (s.wakeFine a val))
  | .run t => inferInstanceAs (Decidable (s.runFine t))
  | .wait .. | .cmpRequeue .. | .store .. | .expire _ => inferInstanceAs (Decidable True)

structure Started (s : State T A V) : Prop where
  user : ∀ t, s.pc t = .user
  empty : s.futexList = []
  blocked : ∀ t, s.blocked t = false
  owed : ∀ t, s.owed t = false
  ret : ∀ t, s.ret t = none

def RetSound : WaitResult × Bool → Prop
  | (.ok, woken) => woken = true
  | (.EAGAIN, _) => True
  | (.ETIMEDOUT, woken) => woken = false

structure NoLostWakeup (s : State T A V) : Prop where
  entries : ∀ t, s.entries t = if s.waiting t then 1 else 0
  ret : ∀ t, ∀ r ∈ s.ret t, RetSound r
  wakeup : ∀ t, s.owed t = true → s.blocked t = false

structure Fits (s : State T A V) (t : T) : Prop where
  entries : s.entries t = if s.waiting t then 1 else 0
  ret : ∀ r ∈ s.ret t, RetSound r
  wakeup : s.owed t = true → s.blocked t = false
  blocked : s.blocked t = true → ∃ a timeout, s.pc t = .yield a timeout
  past : s.owed t = true → (s.pc t).early = false
  fresh : ∀ a timeout, s.pc t = .enqueue a timeout → s.woken t = false

structure SameAt (s s' : State T A V) (t : T) : Prop where
  entries : s'.entries t = s.entries t
  pc : s'.pc t = s.pc t
  woken : s'.woken t = s.woken t
  owed : s'.owed t = s.owed t
  blocked : s'.blocked t = s.blocked t
  ret : s'.ret t = s.ret t

end State

section
variable {s s' : State T A V} {t u : T}

namespace State

section

omit [DecidableEq A] [DecidableEq V]

private theorem Started.fits (h : s.Started) (t : T) : s.Fits t where
  entries := by simp [entries, waiting, h.empty, h.user, Pc.queued]
  ret := by simp [h.ret]
  wakeup _ := h.blocked t
  blocked ht := by simp [h.blocked] at ht
  past ht := by simp [h.owed] at ht
  fresh a timeout hpc := by simp [h.user] at hpc

private theorem Fits.congr (h : s.Fits u) (hs : s.SameAt s' u) : s'.Fits u where
  entries := by
    rw [hs.entries, h.entries, waiting, waiting, hs.pc, hs.woken]
  ret := hs.ret ▸ h.ret
  wakeup := by
    rw [hs.owed, hs.blocked]
    exact h.wakeup
  blocked := by
    rw [hs.blocked, hs.pc]
    exact h.blocked
  past := by
    rw [hs.owed, hs.pc]
    exact h.past
  fresh := by
    rw [hs.pc, hs.woken]
    exact h.fresh

private theorem Fits.running (h : s.Fits t) (hpc : ∀ a timeout, s.pc t ≠ .yield a timeout) : s.blocked t = false := by
  cases hb : s.blocked t with
  | false => rfl
  | true =>
    obtain ⟨a, timeout, hy⟩ := h.blocked hb
    exact absurd hy (hpc a timeout)

private theorem Fits.goto {p : Pc A V} (h : s.Fits u) (hq : p.queued = (s.pc t).queued) (he : p.early = false)
    (hb : s.blocked t = false) : (s.goto t p).Fits u := by
  by_cases hu : u = t
  · subst hu
    have hpc : (s.goto u p).pc u = p := Function.update_self ..
    refine ⟨?_, h.ret, h.wakeup, ?_, fun _ => (congrArg Pc.early hpc).trans he, ?_⟩
    · rw [waiting, hpc, hq]
      exact h.entries
    · intro hblocked
      exact absurd hblocked (by simp [goto, hb])
    · intro a timeout hp
      rw [hpc] at hp
      simp [hp, Pc.early] at he
  · exact h.congr ⟨rfl, Function.update_of_ne hu .., rfl, rfl, rfl, rfl⟩

end

section

omit [DecidableEq V]

private theorem mem_woken {a : A} (hall : s.wakesAll a val = true) (hw : s.waitsAt u a = true)
    (he : (s.pc u).early = false) : u ∈ (wakeLoop a val 0 s.futexList).2 := by
  have hmem : ⟨a, u⟩ ∈ s.futexList := by
    unfold waitsAt at hw
    cases hpc : s.pc u <;> simp_all [Pc.early]
  refine (mem_wakeLoop hmem 0).resolve_left fun hin => ?_
  have := all_eq_true.1 hall _ hin
  simp at this

private theorem entries_futexWake (a : A) (val : Nat) (h : s.Fits u) :
    (s.futexWake a val).entries u = if (s.futexWake a val).waiting u then 1 else 0 := by
  have hc := count_wakeLoop a val u s.futexList 0
  have hold : (s.futexList.map UkFutex.thread).count u = _ := h.entries
  show ((wakeLoop a val 0 s.futexList).1.map UkFutex.thread).count u
    = if (s.pc u).queued && !(s.woken u || decide (u ∈ (wakeLoop a val 0 s.futexList).2)) then 1 else 0
  by_cases hu : u ∈ (wakeLoop a val 0 s.futexList).2
  · have hpos := count_pos_iff.2 hu
    simp only [hu, decide_true, Bool.or_true, Bool.not_true, Bool.and_false, Bool.false_eq_true, if_false]
    split at hold <;> omega
  · have hzero := count_eq_zero.2 hu
    simp only [hu, decide_false, Bool.or_false]
    rw [← waiting, ← hold]
    omega

private theorem Fits.futexWake {a : A} (h : s.Fits u) (hf : s.wakeFine a val) : (s.futexWake a val).Fits u := by
  have howed : (s.futexWake a val).owed u = true →
      s.owed u = true ∨ s.wakesAll a val = true ∧ s.waitsAt u a = true ∧ (s.pc u).early = false := by
    intro ho
    simp only [State.futexWake, Bool.or_eq_true, Bool.and_eq_true] at ho
    rcases ho with ho | ⟨⟨hch, hall⟩, hw⟩
    · exact .inl ho
    · exact .inr ⟨hall, hw, hf hall u hch hw⟩
  refine ⟨entries_futexWake a val h, h.ret, ?_, ?_, ?_, ?_⟩
  · intro ho
    show (s.blocked u && decide (u ∉ (wakeLoop a val 0 s.futexList).2)) = false
    rcases howed ho with ho | ⟨hall, hw, he⟩
    · rw [h.wakeup ho, Bool.false_and]
    · simp [mem_woken hall hw he]
  · intro hb
    exact h.blocked (Bool.and_eq_true _ _ ▸ hb).1
  · intro ho
    rcases howed ho with ho | ⟨_, _, he⟩
    · exact h.past ho
    · exact he
  · intro b timeout hpc
    have hzero : s.entries u = 0 := by simp [h.entries, waiting, show s.pc u = _ from hpc, Pc.queued]
    have hc := count_wakeLoop a val u s.futexList 0
    rw [← State.entries, hzero] at hc
    have hu : u ∉ (wakeLoop a val 0 s.futexList).2 := count_eq_zero.1 (by omega)
    simp [State.futexWake, h.fresh b timeout hpc, hu]

end

section

omit [DecidableEq A] [DecidableEq V]

private theorem Fits.not_owed (h : s.Fits t) (he : (s.pc t).early = true) : s.owed t = false := by
  cases ho : s.owed t with
  | false => rfl
  | true => exact absurd (h.past ho) (by simp [he])

private theorem Fits.store (h : s.Fits u) (mem : A → V) (changed : T → Bool) :
    Fits { s with mem := mem, changed := changed } u :=
  h.congr ⟨rfl, rfl, rfl, rfl, rfl, rfl⟩

end

variable {timeout : Bool}

private theorem fits_load {a : A} {v : V} (hpc : s.pc t = .load a v timeout) (h : ∀ u, s.Fits u) (u : T) :
    (s.exec t).Fits u := by
  simp only [exec, hpc]
  have hb : s.blocked t = false := (h t).running (by simp [hpc])
  have hzero : s.entries t = 0 := by simp [(h t).entries, waiting, hpc, Pc.queued]
  by_cases hu : u = t
  · subst hu
    split_ifs
    · refine ⟨?_, by simp [RetSound], fun _ => hb, fun hbt => absurd hbt (by simp [goto, hb]), ?_, ?_⟩
      · simpa [goto, entries, waiting, Pc.queued] using hzero
      · simp [goto, Pc.early]
      · simp [goto]
    · refine ⟨?_, (h u).ret, fun _ => hb, fun hbt => absurd hbt (by simp [goto, hb]), ?_, ?_⟩
      · simpa [goto, entries, waiting, Pc.queued] using hzero
      · simp
      · simp
  · split_ifs <;> exact (h u).congr ⟨rfl, by simp [goto, hu], by simp [goto, hu], by simp [goto, hu], rfl,
      by simp [goto, hu]⟩

omit [DecidableEq A] in
private theorem count_append (l : List (UkFutex T A)) (a : A) (t u : T) :
    ((l ++ [(⟨a, t⟩ : UkFutex T A)]).map UkFutex.thread).count u = (l.map UkFutex.thread).count u + if t = u then 1
    else 0 := by
  simp [count_singleton]

private theorem fits_enqueue {a : A} (hpc : s.pc t = .enqueue a timeout) (h : ∀ u, s.Fits u) (u : T) :
    (s.exec t).Fits u := by
  simp only [exec, hpc]
  have hb : s.blocked t = false := (h t).running (by simp [hpc])
  have ho := (h t).not_owed (by rw [hpc]; rfl)
  have hzero : s.entries t = 0 := by simp [(h t).entries, waiting, hpc, Pc.queued]
  by_cases hu : u = t
  · subst hu
    refine ⟨?_, (h u).ret, fun _ => hb, fun hbt => absurd hbt (by simp [goto, hb]), ?_, ?_⟩
    · simpa [goto, entries, waiting, Pc.queued, (h u).fresh a timeout hpc] using hzero
    · simp [goto, ho]
    · simp [goto]
  · refine (h u).congr ⟨?_, by simp [goto, hu], rfl, rfl, rfl, rfl⟩
    simp only [entries, count_append, if_neg (Ne.symm hu), Nat.add_zero]

private theorem fits_block {a : A} (hpc : s.pc t = .block a timeout) (h : ∀ u, s.Fits u) (u : T) :
    (s.exec t).Fits u := by
  simp only [exec, hpc]
  have ho := (h t).not_owed (by rw [hpc]; rfl)
  by_cases hu : u = t
  · subst hu
    refine ⟨?_, (h u).ret, ?_, fun _ => ⟨a, timeout, by simp [goto]⟩, ?_, ?_⟩
    · simpa [goto, entries, waiting, Pc.queued, hpc] using (h u).entries
    · simp [goto, ho]
    · simp [goto, ho]
    · simp [goto]
  · exact (h u).congr ⟨rfl, by simp [goto, hu], rfl, rfl, by simp [hu], rfl⟩

private theorem fits_yield {a : A} (hpc : s.pc t = .yield a timeout) (h : ∀ u, s.Fits u) (u : T) :
    (s.exec t).Fits u := by
  simp only [exec, hpc]
  split_ifs with hb
  · exact h u
  · exact (h u).goto (by simp [hpc, Pc.queued]) rfl (by simpa using hb)

private theorem fits_look {a : A} (hpc : s.pc t = .look a) (hf : ∀ f ∈ s.futexList, f.thread = t → f.uaddr = a)
    (h : ∀ u, s.Fits u) (u : T) : (s.exec t).Fits u := by
  have hb : s.blocked t = false := (h t).running (by simp [hpc])
  have hwait : s.waiting t = !s.woken t := by simp [waiting, hpc, Pc.queued]
  have hown := (h t).entries
  rw [hwait] at hown
  simp only [exec, hpc]
  split_ifs with hmem
  · have hcount (v : T) := ((perm_cons_erase hmem).map UkFutex.thread).count_eq v
    simp only [map_cons, count_cons, beq_iff_eq] at hcount
    have hwoken : s.woken t = false := by
      have := hcount t
      cases hw : s.woken t with
      | false => rfl
      | true =>
        simp only [entries, hw] at hown
        simp at this hown
        omega
    by_cases hu : u = t
    · subst hu
      refine ⟨?_, by simp [RetSound, hwoken], fun _ => hb, fun hbt => absurd hbt (by simp [goto, hb]), ?_, ?_⟩
      · have := hcount u
        simp only [entries, hwoken] at hown
        simp [entries, goto, waiting, Pc.queued] at this hown ⊢
        omega
      · simp [goto, Pc.early]
      · simp [goto]
    · refine (h u).congr ⟨?_, by simp [goto, hu], rfl, rfl, rfl, by simp [hu]⟩
      have := hcount u
      simp only [if_neg (Ne.symm hu), Nat.add_zero] at this
      exact this.symm
  · have hzero : s.entries t = 0 := by
      refine count_eq_zero.2 fun hin => ?_
      obtain ⟨⟨b, v⟩, hbv, rfl⟩ := mem_map.1 hin
      obtain rfl := hf _ hbv rfl
      exact hmem hbv
    have hwoken : s.woken t = true := by
      cases hw : s.woken t with
      | true => rfl
      | false => simp [hzero, hw] at hown
    by_cases hu : u = t
    · subst hu
      refine ⟨?_, by simp [RetSound, hwoken], fun _ => hb, fun hbt => absurd hbt (by simp [goto, hb]), ?_, ?_⟩
      · simpa [entries, goto, waiting, Pc.queued] using hzero
      · simp [goto, Pc.early]
      · simp [goto]
    · exact (h u).congr ⟨rfl, by simp [goto, hu], rfl, rfl, rfl, by simp [hu]⟩

private theorem fits_exec (h : ∀ u, s.Fits u) (hf : s.runFine t) (u : T) : (s.exec t).Fits u := by
  unfold runFine at hf
  cases hpc : s.pc t with
  | user => simpa only [exec, hpc] using h u
  | load a v timeout => exact fits_load hpc h u
  | enqueue a timeout => exact fits_enqueue hpc h u
  | block a timeout => exact fits_block hpc h u
  | yield a timeout => exact fits_yield hpc h u
  | look a =>
    rw [hpc] at hf
    exact fits_look hpc hf h u
  | cmp a val val2 a2 val3 =>
    have hb : s.blocked t = false := (h t).running (by simp [hpc])
    simp only [exec, hpc]
    split_ifs <;> exact (h u).goto (by simp [hpc, Pc.queued]) rfl hb
  | reqWake a val val2 a2 =>
    rw [hpc] at hf
    simp only [exec, hpc]
    have hb : (s.futexWake a val).blocked t = false := ((h t).futexWake hf).running (by simp [futexWake, hpc])
    refine ((h u).futexWake hf).goto ?_ ?_ hb
    · split_ifs <;> simp [futexWake, hpc, Pc.queued]
    · split_ifs <;> rfl
  | requeue a val2 a2 =>
    have hb : s.blocked t = false := (h t).running (by simp [hpc])
    have hgoto : (s.goto t .user).Fits u := (h u).goto (by simp [hpc, Pc.queued]) rfl hb
    simp only [exec, hpc]
    exact hgoto.congr ⟨(requeueLoop_perm a a2 val2 [] s.futexList).count_eq u, rfl, rfl, rfl, rfl, rfl⟩

end State

open State

private theorem fits_step (h : ∀ u, s.Fits u) (o : Op T A V) (hf : s.fine o) (u : T) : (step s o).Fits u := by
  cases o with
  | wait | cmpRequeue =>
    simp only [step]
    split_ifs with hpc
    · exact (h u).goto (by simp [hpc, Pc.queued]) rfl ((h _).running (by simp [hpc]))
    · exact h u
  | wake t a val =>
    simp only [step]
    split_ifs with hpc
    · exact (h u).futexWake hf
    · exact h u
  | store t a v =>
    simp only [step]
    split_ifs with hpc
    · exact (h u).store _ _
    · exact h u
  | run t => exact fits_exec h hf u
  | expire t =>
    simp only [step]
    split
    next a hpc =>
      by_cases hu : u = t
      · subst hu
        exact ⟨(h u).entries, (h u).ret, fun _ => by simp, fun hb => by simp at hb, (h u).past, (h u).fresh⟩
      · exact (h u).congr ⟨rfl, rfl, rfl, rfl, by simp [hu], rfl⟩
    next => exact h u

end

/-- In every run that meets the condition the list has exactly the entries of the threads that wait, `futex_wait`
returns zero only after a wake and a timeout only without one, and no thread is left blocked by a wake of all
waiters. -/
theorem futex_no_lost_wakeup {s : State T A V} (h : s.Started) {os : List (Op T A V)}
    (hf : Meets step State.fine s os) :
    Always step State.NoLostWakeup s os := by
  refine Meets.always (I := fun s => ∀ u, s.Fits u) (fun s o hs hfine => fits_step hs o hfine) ?_ h.fits hf
  intro s hs
  exact ⟨fun t => (hs t).entries, fun t => (hs t).ret, fun t => (hs t).wakeup⟩

def idle (T : Type) : State T Nat Nat :=
  ⟨fun _ => 0, [], fun _ => false, fun _ => .user, fun _ => false, fun _ => false, fun _ => false, fun _ => none⟩

private theorem started_idle (T : Type) : (idle T).Started :=
  ⟨fun _ => rfl, rfl, fun _ => rfl, fun _ => rfl, fun _ => rfl⟩

/-- A thread waits, another one stores to the word and wakes all waiters, and a third one times out. -/
def wakeOps : List (Op (Fin 3) Nat Nat) :=
  [.wait 0 4 0 false, .run 0, .run 0, .run 0, .wait 2 4 0 true, .run 2, .run 2, .run 2, .expire 2, .run 2, .run 2,
    .store 1 4 1, .wake 1 4 7, .run 0, .run 0]

theorem futex_no_lost_wakeup_all : Always step State.NoLostWakeup (idle (Fin 3)) wakeOps :=
  futex_no_lost_wakeup (started_idle _) (by decide)

/-- The word is changed and all waiters are woken after the first thread has read the word, which it then is left
waiting for. -/
def lostOps : List (Op (Fin 3) Nat Nat) := [.wait 0 4 0 false, .run 0, .store 1 4 1, .wake 1 4 7, .run 0, .run 0]

def requeuedOps : List (Op (Fin 3) Nat Nat) :=
  [.wait 0 4 0 false, .run 0, .run 0, .run 0, .wait 1 4 0 true, .run 1, .run 1, .run 1,
    .cmpRequeue 2 4 1 1 8 0, .run 2, .run 2, .run 2, .expire 1, .run 1, .run 1]

/-- The first run leaves a thread blocked by a wake of all waiters, and in the second `futex_wait` returns zero with
no wake and leaves its entry in the list. -/
theorem not_futex_no_lost_wakeup :
    ((run step (idle (Fin 3)) lostOps).owed 0 = true ∧ (run step (idle (Fin 3)) lostOps).blocked 0 = true) ∧
    (run step (idle (Fin 3)) requeuedOps).ret 1 = some (.ok, false) ∧
    (run step (idle (Fin 3)) requeuedOps).futexList = [⟨8, 1⟩] := by
  decide

variable {T A V : Type} [DecidableEq A] [DecidableEq V] {a b : A} {l u v p : List (UkFutex T A)} {f : UkFutex T A}
    {k n : Nat}

/-- The conversion of `uint32_t` to `int`. -/
def toInt (count : Nat) : Int := (BitVec.ofNat 32 count).toInt

/-- `waiters_uaddr2` at the end of `requeueLoop`. -/
def requeueCount (uaddr uaddr2 : A) : Nat → List (UkFutex T A) → Nat
  | 0, _ => 0
  | left + 1, rest =>
    match rest.dropWhile fun f => decide (f.uaddr ≠ uaddr) with
    | [] => 0
    | f :: rest' =>
      if rest'.isEmpty then 1 else requeueCount uaddr uaddr2 left (rest' ++ [{ f with uaddr := uaddr2 }]) + 1

/-- The list, the threads that are woken, and the result. -/
def futexWake (l : List (UkFutex T A)) (uaddr : A) (val : BitVec 32) : List (UkFutex T A) × List T × Int :=
  let r := wakeLoop uaddr val.toNat 0 l
  (r.1, r.2, toInt r.2.length)

def futexCmpRequeue (mem : A → V) (l : List (UkFutex T A)) (uaddr : A) (val val2 : BitVec 32) (uaddr2 : A)
    (val3 : V) :
    List (UkFutex T A) × List T × Except WaitResult Int :=
  if val3 ≠ mem uaddr then (l, [], .error .EAGAIN)
  else
    let r := futexWake l uaddr val
    if val2 = 0 then (r.1, r.2.1, .ok r.2.2)
    else
      (requeueLoop uaddr uaddr2 val2.toNat [] r.1, r.2.1,
          .ok (toInt (r.2.1.length + requeueCount uaddr uaddr2 val2.toNat r.1)))

def on (a : A) (f : UkFutex T A) : Bool := decide (f.uaddr = a)

def entries (a : A) (l : List (UkFutex T A)) : List (UkFutex T A) := l.filter (on a)

/-- The list without the first `n` entries of `a`. -/
def without (a : A) (n : Nat) (l : List (UkFutex T A)) : List (UkFutex T A) := (eraseP (on a))^[n] l

/-- The first `n` of the `k` entries are woken, and `min n k` is returned. -/
def WakeExact (l : List (UkFutex T A)) (a : A) (n : BitVec 32) : Prop :=
  futexWake l a n =
    (without a n.toNat l, ((entries a l).take n.toNat).map UkFutex.thread,
        ((min n.toNat (entries a l).length : Nat) : Int))

/-- If the word is `v`, the next `m` entries go behind all others and to `b`. -/
def RequeueExact (mem : A → V) (l : List (UkFutex T A)) (a : A) (n m : BitVec 32) (b : A) (v : V) : Prop :=
  futexCmpRequeue mem l a n m b v =
    if mem a = v then
      (without a (n.toNat + m.toNat) l ++ (((entries a l).drop n.toNat).take m.toNat).map ({ · with uaddr := b }),
        ((entries a l).take n.toNat).map UkFutex.thread,
        .ok ((min n.toNat (entries a l).length + min m.toNat ((entries a l).length - n.toNat) : Nat) : Int))
    else (l, [], .error .EAGAIN)

private theorem entries_split (a : A) (l : List (UkFutex T A)) :
    entries a l = [] ∨ ∃ u f v, l = u ++ f :: v ∧ entries a u = [] ∧ on a f = true := by
  cases h : l.find? (on a) with
  | none => exact .inl (filter_eq_nil_iff.2 (find?_eq_none.1 h))
  | some f =>
    obtain ⟨hf, u, v, rfl, hu⟩ := find?_eq_some_iff_append.1 h
    exact .inr ⟨u, f, v, rfl, filter_eq_nil_iff.2 (by simpa using hu), hf⟩

private theorem entries_append : entries a (u ++ v) = entries a u ++ entries a v := filter_append ..

private theorem entries_cons (h : on a f = true) : entries a (f :: l) = f :: entries a l := filter_cons_of_pos h

private theorem without_cons (h : on a f = true) : without a (n + 1) (f :: l) = without a n l := by
  rw [without, Function.iterate_succ_apply, eraseP_cons_of_pos h, without]

private theorem without_append (h : entries a u = []) : without a n (u ++ l) = u ++ without a n l := by
  unfold without
  induction n generalizing l with
  | zero => rfl
  | succ n ih =>
    rw [Function.iterate_succ_apply, eraseP_append_right _ (filter_eq_nil_iff.1 h), ih, Function.iterate_succ_apply]

private theorem without_eq_self (h : entries a l = []) : without a n l = l := by
  have happ := without_append (n := n) (l := []) h
  have hnil : without a n ([] : List (UkFutex T A)) = [] := Function.iterate_fixed rfl n
  rwa [hnil, append_nil] at happ

private theorem entries_without : entries a (without a n l) = (entries a l).drop n := by
  induction n generalizing l with
  | zero => rfl
  | succ n ih =>
    rcases entries_split a l with h | ⟨u, f, v, rfl, hu, hf⟩
    · rw [without_eq_self h, h, drop_nil]
    · rw [without_append hu, without_cons hf, entries_append, entries_append, entries_cons hf, hu, ih]
      rfl

private theorem wakeLoop_eq {val : Nat} (count : Nat) : wakeLoop a val count l =
    (without a (max (val - count) 1) l, ((entries a l).take (max (val - count) 1)).map UkFutex.thread) := by
  induction l generalizing count with
  | nil =>
    rw [without_eq_self rfl]
    simp [wakeLoop, entries]
  | cons f l ih =>
    unfold wakeLoop
    by_cases hf : f.uaddr = a
    · have hon : on a f = true := decide_eq_true hf
      rw [if_pos hf, entries_cons hon]
      split
      next =>
        rw [show max (val - count) 1 = 0 + 1 by omega, without_cons hon]
        rfl
      next =>
        rw [show max (val - count) 1 = max (val - (count + 1)) 1 + 1 by omega, without_cons hon, ih]
        rfl
    · have hon : entries a [f] = [] := filter_cons_of_neg (by simpa [on] using hf)
      rw [if_neg hf, ih, ← singleton_append, entries_append, hon, without_append hon]
      rfl

/-- The walk ends at a list without entries, and otherwise takes the first. -/
private theorem requeueLoop_none (h : entries a l = []) :
    requeueLoop a b k p l = p ++ l ∧ requeueCount a b k l = 0 := by
  have h' : ∀ f ∈ l, decide (f.uaddr ≠ a) = true := fun f hf => by simpa [on] using filter_eq_nil_iff.1 h f hf
  cases k with
  | zero => exact ⟨rfl, rfl⟩
  | succ k =>
    simp only [requeueLoop, requeueCount, takeWhile_eq_self_iff.2 h', dropWhile_eq_nil_iff.2 h', and_self]

private theorem requeueLoop_split (hu : entries a u = []) (hf : on a f = true) :
    requeueLoop a b (k + 1) p (u ++ f :: v) =
        (if v = [] then p ++ u ++ [{ f with uaddr := b }]
          else requeueLoop a b k (p ++ u) (v ++ [{ f with uaddr := b }])) ∧
      requeueCount a b (k + 1) (u ++ f :: v) = if v = [] then 1
        else requeueCount a b k (v ++ [{ f with uaddr := b }]) + 1 := by
  have hu' : ∀ g ∈ u, decide (g.uaddr ≠ a) = true := fun g hg => by simpa [on] using filter_eq_nil_iff.1 hu g hg
  have hf' : decide (f.uaddr ≠ a) = false := by simpa [on] using hf
  simp only [requeueLoop, requeueCount, takeWhile_append_of_pos hu', dropWhile_append_of_pos hu', takeWhile_cons,
    dropWhile_cons, hf', Bool.false_eq_true, if_false, append_nil, List.isEmpty_iff, and_self]

/-- The walk over the entries of `u` and then over those it has moved, `v`. -/
private theorem requeueLoop_eq (h : a ≠ b ∧ entries a v = [] ∨ k ≤ (entries a u).length ∨ v = [] ∧
      entries a u.dropLast = []) :
    requeueLoop a b k p (u ++ v) = p ++ without a k u ++ v ++ ((entries a u).take k).map ({ · with uaddr := b }) ∧
      requeueCount a b k (u ++ v) = min k (entries a u).length := by
  induction k generalizing p u v with
  | zero => simp [requeueLoop, requeueCount, without]
  | succ k ih =>
    rcases entries_split a u with hnil | ⟨u, f, w, rfl, hu, hf⟩
    · have hv : entries a v = [] := by
        rcases h with h | h | ⟨rfl, -⟩
        · exact h.2
        · simp [hnil] at h
        · rfl
      obtain ⟨hloop, hcount⟩ := requeueLoop_none (b := b) (l := u ++ v) (k := k + 1) (p := p) (by
        rw [entries_append, hnil, hv, nil_append])
      simp [hloop, hcount, without_eq_self hnil, hnil]
    · have hlen : entries a (u ++ f :: w) = f :: entries a w := by
        rw [entries_append, entries_cons hf, hu, nil_append]
      rw [without_append hu, without_cons hf, hlen, append_assoc, cons_append, (requeueLoop_split hu hf).1,
        (requeueLoop_split (p := p) hu hf).2]
      split
      next hempty =>
        obtain ⟨rfl, rfl⟩ := append_eq_nil_iff.1 hempty
        simp [without_eq_self (l := []) rfl, entries]
      next hempty =>
        obtain ⟨hloop, hcount⟩ := ih (u := w) (v := v ++ [{ f with uaddr := b }]) (p := p ++ u) <| by
          rcases h with h | h | ⟨rfl, h⟩
          · have hb : on a { f with uaddr := b } = false := decide_eq_false (Ne.symm h.1)
            refine .inl ⟨h.1, ?_⟩
            rw [entries_append, h.2, nil_append, entries, filter_cons_of_neg (by simp [hb]), filter_nil]
          · rw [hlen, length_cons] at h
            exact .inr (.inl (by omega))
          · have hw : w ≠ [] := by simpa using hempty
            rw [dropLast_append_of_ne_nil (by simp), dropLast_cons_of_ne_nil hw, entries_append, entries_cons hf] at h
            simp at h
        rw [append_assoc w, hloop, hcount]
        simp

private theorem requeueCount_le : requeueCount a b k l ≤ k := by
  induction k generalizing l with
  | zero => exact Nat.le_refl 0
  | succ k ih =>
    rcases entries_split a l with hnil | ⟨u, f, v, rfl, hu, hf⟩
    · rw [(requeueLoop_none (p := []) hnil).2]
      exact Nat.zero_le _
    · rw [(requeueLoop_split (p := []) hu hf).2]
      split
      · omega
      · exact Nat.succ_le_succ ih

private theorem le_requeueCount : min k (entries a l).length ≤ requeueCount a b k l := by
  induction k generalizing l with
  | zero => omega
  | succ k ih =>
    rcases entries_split a l with hnil | ⟨u, f, v, rfl, hu, hf⟩
    · simp [hnil]
    · rw [entries_append, hu, nil_append, entries_cons hf, (requeueLoop_split (p := []) hu hf).2, length_cons]
      split
      next hempty =>
        subst hempty
        exact Nat.min_le_right ..
      next =>
        have ih := @ih (v ++ [{ f with uaddr := b }])
        rw [entries_append, length_append] at ih
        omega

/-- With one address the walk counts an entry that it meets again. -/
private theorem lt_requeueCount (hl : entries a l.dropLast ≠ []) (h : (entries a l).length < k) :
    (entries a l).length < requeueCount a a k l := by
  obtain ⟨k, rfl⟩ := Nat.exists_eq_succ_of_ne_zero (by omega : k ≠ 0)
  rcases entries_split a l with hnil | ⟨u, f, v, rfl, hu, hf⟩
  · exact absurd (eq_nil_of_subset_nil (hnil ▸ ((dropLast_sublist l).filter _).subset)) hl
  · have hv : v ≠ [] := by
      rintro rfl
      exact hl (by rw [dropLast_concat, hu])
    have hlen : (entries a (u ++ f :: v)).length = (entries a v).length + 1 := by
      rw [entries_append, hu, nil_append, entries_cons hf, length_cons]
    have hle := le_requeueCount (a := a) (b := a) (k := k) (l := v ++ [{ f with uaddr := a }])
    rw [entries_append, length_append, entries_cons (show on a { f with uaddr := a } = true from decide_eq_true rfl),
        length_cons] at hle
    rw [hlen] at h ⊢
    rw [(requeueLoop_split (p := []) hu hf).2, if_neg hv]
    omega

theorem toInt_eq_iff {x y : Nat} : toInt x = y ↔ y < 2 ^ 31 ∧ x % 2 ^ 32 = y := by
  unfold toInt
  rw [BitVec.toInt_eq_toNat_cond, BitVec.toNat_ofNat]
  split <;> omega

private theorem futexWake_of {n : BitVec 32} (h : n = 0 → entries a l = []) : futexWake l a n =
    (without a n.toNat l, ((entries a l).take n.toNat).map UkFutex.thread,
      toInt (min n.toNat (entries a l).length)) := by
  unfold futexWake
  rw [wakeLoop_eq, Nat.sub_zero]
  by_cases hn : n = 0
  · simp [hn, without_eq_self (h hn), h hn]
  · have hpos : n.toNat ≠ 0 := fun h0 => hn (BitVec.eq_of_toNat_eq h0)
    rw [Nat.max_eq_left (by omega)]
    simp

/-- `futex_wake` wakes as many threads as it is asked for, except that it wakes one for 0. -/
theorem wakeExact_iff {n : BitVec 32} : WakeExact l a n ↔
    (n = 0 → entries a l = []) ∧ min n.toNat (entries a l).length < 2 ^ 31 := by
  unfold WakeExact
  refine ⟨fun h => ?_, fun ⟨hn, hret⟩ => by rw [futexWake_of hn, toInt_eq_iff.2 ⟨hret, by omega⟩]⟩
  have hn : n = 0 → entries a l = [] := by
    rintro rfl
    have hwoken := congrArg (·.2.1) h
    simpa [futexWake, wakeLoop_eq] using hwoken
  rw [futexWake_of hn] at h
  exact ⟨hn, (toInt_eq_iff.1 (congrArg (·.2.2) h)).1⟩

private theorem futexCmpRequeue_of {mem : A → V} {n m : BitVec 32} {v : V} (hv : mem a = v)
    (h : n = 0 → entries a l = []) :
    futexCmpRequeue mem l a n m b v =
      (requeueLoop a b m.toNat [] (without a n.toNat l), ((entries a l).take n.toNat).map UkFutex.thread,
        .ok (toInt (min n.toNat (entries a l).length + requeueCount a b m.toNat (without a n.toNat l)))) := by
  unfold futexCmpRequeue
  rw [if_neg (not_not.2 hv.symm), futexWake_of h]
  dsimp only
  split
  next hm =>
    subst hm
    rfl
  next => rw [length_map, length_take]

/-- Both calls wake and requeue the right threads and return their number exactly under this condition. -/
theorem futex_exact_iff (mem : A → V) (l : List (UkFutex T A)) (a : A) (n m : BitVec 32) (b : A) (v : V) :
    WakeExact l a n ∧ RequeueExact mem l a n m b v ↔
      (n = 0 → entries a l = []) ∧ min n.toNat (entries a l).length < 2 ^ 31 ∧
        (mem a = v → min n.toNat (entries a l).length + min m.toNat ((entries a l).length - n.toNat) < 2 ^ 31 ∧
          (a = b → m.toNat ≤ (entries a l).length - n.toNat ∨ entries a (without a n.toNat l).dropLast = [])) := by
  rw [wakeExact_iff, and_assoc]
  refine and_congr_right fun hn => and_congr_right fun _ => ?_
  unfold RequeueExact
  have hlen : (entries a (without a n.toNat l)).length = (entries a l).length - n.toNat := by
    rw [entries_without, length_drop]
  by_cases hv : mem a = v
  · rw [if_pos hv, futexCmpRequeue_of hv hn]
    refine ⟨fun h _ => ?_, fun h => ?_⟩
    · obtain ⟨hlt, hmod⟩ := toInt_eq_iff.1 (Except.ok.inj (congrArg (·.2.2) h))
      refine ⟨hlt, ?_⟩
      rintro rfl
      by_contra hnot
      obtain ⟨hm, hlast⟩ := not_or.1 hnot
      have hmore := lt_requeueCount hlast (by omega : _ < m.toNat)
      have hle := requeueCount_le (a := a) (b := a) (k := m.toNat) (l := without a n.toNat l)
      omega
    · obtain ⟨hlt, hab⟩ := h hv
      have hexact :=
        requeueLoop_eq (a := a) (b := b) (u := without a n.toNat l) (v := []) (k := m.toNat) (p := []) <| by
        by_cases hb : a = b
        · exact .inr (hlen ▸ (hab hb).imp_right fun h => ⟨rfl, h⟩)
        · exact .inl ⟨hb, rfl⟩
      rw [append_nil] at hexact
      rw [hexact.1, hexact.2, hlen, toInt_eq_iff.2 ⟨hlt, Nat.mod_eq_of_lt (by omega)⟩, entries_without]
      simp [without, Nat.add_comm n.toNat, Function.iterate_add_apply]
  · rw [if_neg hv]
    exact ⟨fun _ h => absurd h hv, fun _ => if_pos fun h => hv h.symm⟩

/-- A wake of no thread wakes one. -/
theorem not_futex_exact : futexWake [⟨0, ()⟩] 0 0 = ([], [()], 1) ∧
    ¬WakeExact [(⟨0, ()⟩ : UkFutex Unit Nat)] 0 0 := by
  unfold WakeExact
  decide

end Unikraft.Futex
