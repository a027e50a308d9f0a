import Unikraft.Lib.Circular
import Unikraft.Lib.Runs
import Unikraft.Lib.Threads

/-!
# Mailboxes are bounded queues

Threads and interrupt handlers post to a mailbox and receive from it. A step is one semaphore operation, one section
with interrupts disabled, or one reading of the clock. Each of the `size` tokens is in `writesem`, with a post that
has not stored, with a message, or with a receive that has taken its message. Each message is announced by a token of
`readsem`, or by a post that has stored it or a receive that is to take it.
-/

namespace Unikraft.Ukmpi

def nsecMax : Nat := 18446744073709551615

structure Mbox (M : Type) where
  len : Nat
  readsem : Nat
  readpos : Nat
  writesem : Nat
  writepos : Nat
  msgs : Nat → M

inductive MboxOp (M : Type) where
  | post (msg : M)
  | recv

/-- How an operation takes its token: `uk_semaphore_down`, `uk_semaphore_down_try` or `uk_semaphore_down_to`. -/
inductive Down where
  | down
  | downTry
  | downTo (timeout : Nat)

/-- The result of an operation; `failed` is `-ENOBUFS`, `-ENOMSG` or `__NSEC_MAX`. -/
inductive MboxResult (M : Type) where
  | none
  | failed
  | posted
  | received (msg : M)

/-- Where a thread is. `wait` is the section of `uk_semaphore_down_to`, `elapsed` its end with the token, `enter` the
section of `_do_mbox_post` or `_do_mbox_recv`, and `up` the semaphore operation after it. -/
inductive MboxPc (M : Type) where
  | ret (r : MboxResult M)
  | begin (op : MboxOp M) (k : Down)
  | wait (op : MboxOp M) (since deadline : Nat)
  | elapsed (op : MboxOp M) (since : Nat)
  | enter (op : MboxOp M)
  | upRead (msg : M)
  | upWrite (msg : M)

/-- `stored` and `taken` are the messages with the threads that stored and took them, and `done` are the operations
that have returned, with their results. No operation reads these three. -/
structure MboxState (T M : Type) where
  mbox : Mbox M
  clock : Nat
  pc : T → MboxPc M
  stored : List (T × M)
  taken : List (T × M)
  done : List (T × MboxOp M × MboxResult M)
  failed : Bool

namespace Mbox

variable {M : Type}

def create (size : Nat) (mem : Nat → M) : Mbox M := ⟨size + 1, 0, 0, size, 0, mem⟩

def sem (m : Mbox M) : MboxOp M → Nat
  | .post _ => m.writesem
  | .recv => m.readsem

def down (m : Mbox M) : MboxOp M → Mbox M
  | .post _ => { m with writesem := m.writesem - 1 }
  | .recv => { m with readsem := m.readsem - 1 }

def contents (m : Mbox M) : List M :=
  Circular.window m.msgs m.len m.readpos ((m.writepos + m.len - m.readpos) % m.len)

end Mbox

namespace MboxState

variable {T M : Type}

def init (size : Nat) (mem : Nat → M) (clock : Nat) : MboxState T M :=
  ⟨.create size mem, clock, fun _ => .ret .none, [], [], [], false⟩

variable [DecidableEq T] (s : MboxState T M)

def goto (t : T) (p : MboxPc M) : MboxState T M := { s with pc := Function.update s.pc t p }

def ret (t : T) (op : MboxOp M) (r : MboxResult M) : MboxState T M :=
  { s.goto t (.ret r) with done := s.done ++ [(t, op, r)] }

def enter (t : T) (op : MboxOp M) : MboxState T M :=
  let m := s.mbox
  match op with
  | .post msg =>
    { s with
      mbox := { m with msgs := Function.update m.msgs m.writepos msg, writepos := (m.writepos + 1) % m.len }
      stored := s.stored ++ [(t, msg)]
      failed := s.failed || decide (m.readpos = (m.writepos + 1) % m.len) }.goto t (.upRead msg)
  | .recv =>
    { s with
      mbox := { m with readpos := (m.readpos + 1) % m.len }
      taken := s.taken ++ [(t, m.msgs m.readpos)]
      failed := s.failed || decide (m.readpos = m.writepos) }.goto t (.upWrite (m.msgs m.readpos))

def exec (t : T) : MboxState T M :=
  match s.pc t with
  | .ret _ => s
  | .begin op .down => if 0 < s.mbox.sem op then { s with mbox := s.mbox.down op }.goto t (.enter op) else s
  | .begin op .downTry =>
    if 0 < s.mbox.sem op then { s with mbox := s.mbox.down op }.goto t (.enter op) else s.ret t op .failed
  | .begin op (.downTo timeout) => s.goto t (.wait op s.clock ((s.clock + timeout) % (nsecMax + 1)))
  | .wait op since deadline =>
    if 0 < s.mbox.sem op then { s with mbox := s.mbox.down op }.goto t (.elapsed op since)
    else if deadline ≠ 0 ∧ s.clock ≥ deadline then s.ret t op .failed
    else s
  | .elapsed op since =>
    -- the time that has passed is the result of `uk_semaphore_down_to`
    if (s.clock + (nsecMax + 1) - since) % (nsecMax + 1) ≠ nsecMax then s.goto t (.enter op) else s.ret t op .failed
  | .enter op => s.enter t op
  | .upRead msg => { s with mbox := { s.mbox with readsem := s.mbox.readsem + 1 } }.ret t (.post msg) .posted
  | .upWrite msg => { s with mbox := { s.mbox with writesem := s.mbox.writesem + 1 } }.ret t .recv (.received msg)

def call (t : T) (op : MboxOp M) (k : Down) : MboxState T M :=
  match s.pc t with
  | .ret _ => s.goto t (.begin op k)
  | _ => s

end MboxState

inductive MboxAct (T M : Type) where
  | call (t : T) (op : MboxOp M) (k : Down)
  | exec (t : T)
  | tick (d : Nat)

def MboxState.step {T M : Type} [DecidableEq T] (s : MboxState T M) (a : MboxAct T M) : MboxState T M :=
  if s.failed then s
  else
    match a with
    | .call t op k => s.call t op k
    | .exec t => s.exec t
    | .tick d => { s with clock := s.clock + d }

open Circular MboxState Runs Threads Nat

variable {T M : Type}

/-- A token of `writesem` for a message that is not yet stored. -/
def MboxPc.storing : MboxPc M → Nat
  | .elapsed (.post _) _ | .enter (.post _) => 1
  | _ => 0

def MboxPc.stored : MboxPc M → Nat
  | .upRead _ => 1
  | _ => 0

/-- A token of `readsem` for a message that is not yet taken. -/
def MboxPc.taking : MboxPc M → Nat
  | .elapsed .recv _ | .enter .recv => 1
  | _ => 0

def MboxPc.taken : MboxPc M → Nat
  | .upWrite _ => 1
  | _ => 0

/-- The operation has no token: it has not taken one, or has failed. -/
def MboxPc.noToken : MboxPc M → Bool
  | .ret .failed | .begin _ _ | .wait _ _ _ => true
  | _ => false

def MboxPc.Since (clock : Nat) : MboxPc M → Prop
  | .wait _ since _ | .elapsed _ since => since ≤ clock
  | _ => True

structure Tokens [Fintype T] (size n readsem writesem : Nat) (pc : T → MboxPc M) : Prop where
  write : writesem + ∑ t, (pc t).storing + n + ∑ t, (pc t).taken = size
  read : readsem + ∑ t, (pc t).stored + ∑ t, (pc t).taking = n

structure MboxInv [Fintype T] (size n : Nat) (s : MboxState T M) : Prop where
  len : s.mbox.len = size + 1
  readpos : s.mbox.readpos < s.mbox.len
  writepos : s.mbox.writepos = (s.mbox.readpos + n) % s.mbox.len
  fifo : s.stored.map Prod.snd = s.taken.map Prod.snd ++ window s.mbox.msgs s.mbox.len s.mbox.readpos n
  tokens : Tokens size n s.mbox.readsem s.mbox.writesem s.pc
  since : ∀ t, (s.pc t).Since s.clock
  failed : s.failed = false

variable {size n : Nat} {s : MboxState T M}

section
variable [Fintype T] [DecidableEq T] {readsem writesem : Nat} {pc : T → MboxPc M} {t : T} {p : MboxPc M}

section
variable (h : Tokens size n readsem writesem pc)
include h

/-- The semaphores and the threads between them count the free and the full slots. -/
theorem Tokens.step {n' readsem' writesem' : Nat}
    (hwrite : writesem' + p.storing + n' + p.taken = writesem + (pc t).storing + n + (pc t).taken)
    (hread : readsem' + p.stored + p.taking + n = readsem + (pc t).stored + (pc t).taking + n') :
    Tokens size n' readsem' writesem' (Function.update pc t p) := by
  have h1 := sum_update pc t p MboxPc.storing
  have h2 := sum_update pc t p MboxPc.taken
  have h3 := sum_update pc t p MboxPc.stored
  have h4 := sum_update pc t p MboxPc.taking
  have hw := h.write
  have hr := h.read
  constructor <;> omega

omit [DecidableEq T] in
private theorem Tokens.room (ht : (pc t).storing = 1) : n < size := by
  have hle := le_sum pc t MboxPc.storing
  have hw := h.write
  omega

omit [DecidableEq T] in
private theorem Tokens.message (ht : (pc t).taking = 1) : 0 < n := by
  have hle := le_sum pc t MboxPc.taking
  have hr := h.read
  omega

end

variable {op : MboxOp M} {since : Nat}

private theorem MboxInv.ret {r : MboxResult M} (h : MboxInv size n (s.goto t (.ret r))) :
    MboxInv size n (s.ret t op r) :=
  ⟨h.len, h.readpos, h.writepos, h.fifo, h.tokens, h.since, h.failed⟩

section
variable (h : MboxInv size n s)
include h

private theorem MboxInv.move {m : Mbox M} (hm : m = { s.mbox with readsem := m.readsem, writesem := m.writesem })
    (htokens : Tokens size n m.readsem m.writesem (Function.update s.pc t p)) (hsince : p.Since s.clock) :
    MboxInv size n ({ s with mbox := m }.goto t p) := by
  refine ⟨?_, ?_, ?_, ?_, htokens, forall_update hsince fun u _ => h.since u,
    h.failed⟩
  · rw [hm]
    exact h.len
  · rw [hm]
    exact h.readpos
  · rw [hm]
    exact h.writepos
  · rw [hm]
    exact h.fifo

private theorem MboxInv.idle (hpc : (s.pc t).storing = 0 ∧ (s.pc t).stored = 0 ∧ (s.pc t).taking = 0 ∧
      (s.pc t).taken = 0)
    (hp : p.storing = 0 ∧ p.stored = 0 ∧ p.taking = 0 ∧ p.taken = 0) (hsince : p.Since s.clock) :
    MboxInv size n (s.goto t p) := by
  exact h.move rfl (h.tokens.step (by omega) (by omega)) hsince

private theorem MboxInv.down (hpos : 0 < s.mbox.sem op)
    (hpc : (s.pc t).storing = 0 ∧ (s.pc t).stored = 0 ∧ (s.pc t).taking = 0 ∧ (s.pc t).taken = 0)
    (hp : p = .enter op ∨ ∃ since, p = .elapsed op since) (hsince : p.Since s.clock) :
    MboxInv size n ({ s with mbox := s.mbox.down op }.goto t p) := by
  cases op with
  | post msg =>
    have hpos' : 0 < s.mbox.writesem := hpos
    have hp' : p.storing = 1 ∧ p.stored = 0 ∧ p.taking = 0 ∧ p.taken = 0 := by
      rcases hp with rfl | ⟨since, rfl⟩ <;> exact ⟨rfl, rfl, rfl, rfl⟩
    refine h.move rfl (h.tokens.step ?_ ?_) hsince
    · change s.mbox.writesem - 1 + p.storing + n + p.taken = _
      omega
    · change s.mbox.readsem + p.stored + p.taking + n = _
      omega
  | recv =>
    have hpos' : 0 < s.mbox.readsem := hpos
    have hp' : p.storing = 0 ∧ p.stored = 0 ∧ p.taking = 1 ∧ p.taken = 0 := by
      rcases hp with rfl | ⟨since, rfl⟩ <;> exact ⟨rfl, rfl, rfl, rfl⟩
    refine h.move rfl (h.tokens.step ?_ ?_) hsince
    · change s.mbox.writesem + p.storing + n + p.taken = _
      omega
    · change s.mbox.readsem - 1 + p.stored + p.taking + n = _
      omega

omit [DecidableEq T] in
private theorem MboxInv.next_ne {k : Nat} (hk : 0 < k) (hlt : k < s.mbox.len) :
    (s.mbox.readpos + k) % s.mbox.len ≠ s.mbox.readpos := by
  intro he
  have hr := h.readpos
  by_cases hwrap : s.mbox.readpos + k < s.mbox.len
  · rw [mod_eq_of_lt hwrap] at he
    omega
  · rw [mod_eq_sub_mod (by omega), mod_eq_of_lt (by omega)] at he
    omega

end

private theorem MboxInv.store {msg : M} (h : MboxInv size n s) (hpc : s.pc t = .enter (.post msg)) :
    MboxInv size (n + 1) (s.enter t (.post msg)) := by
  have hroom : n < size := h.tokens.room (by rw [hpc]; rfl)
  have hnext : (s.mbox.writepos + 1) % s.mbox.len = (s.mbox.readpos + (n + 1)) % s.mbox.len := by
    rw [h.writepos, mod_add_mod, add_assoc]
  have hne : (s.mbox.readpos + (n + 1)) % s.mbox.len ≠ s.mbox.readpos := h.next_ne (succ_pos n) (by rw [h.len]; omega)
  refine ⟨h.len, h.readpos, hnext, ?_, h.tokens.step ?_ ?_, ?_, ?_⟩
  · change (s.stored ++ [(t, msg)]).map Prod.snd =
      s.taken.map Prod.snd ++ window (Function.update s.mbox.msgs s.mbox.writepos msg) s.mbox.len s.mbox.readpos _
    rw [List.map_append, h.fifo, h.writepos, window_update _ _ (by rw [h.len]; omega), List.append_assoc]
    rfl
  · rw [hpc]
    change s.mbox.writesem + 0 + (n + 1) + 0 = s.mbox.writesem + 1 + n + 0
    omega
  · rw [hpc]
    change s.mbox.readsem + 1 + 0 + n = s.mbox.readsem + 0 + 0 + (n + 1)
    omega
  · exact forall_update trivial fun u _ => h.since u
  · change (s.failed || decide (s.mbox.readpos = (s.mbox.writepos + 1) % s.mbox.len)) = false
    rw [h.failed, hnext, decide_eq_false hne.symm]
    rfl

private theorem MboxInv.take {k : Nat} (h : MboxInv size (k + 1) s) (hpc : s.pc t = .enter .recv) :
    MboxInv size k (s.enter t .recv) := by
  have hlen : k + 1 < s.mbox.len := by
    have hw := h.tokens.write
    rw [h.len]
    omega
  have hne : s.mbox.writepos ≠ s.mbox.readpos := by
    rw [h.writepos]
    exact h.next_ne (succ_pos k) hlen
  refine ⟨h.len, mod_lt _ (by omega), ?_, ?_, h.tokens.step ?_ ?_, ?_, ?_⟩
  · change s.mbox.writepos = ((s.mbox.readpos + 1) % s.mbox.len + k) % s.mbox.len
    rw [h.writepos, mod_add_mod, add_assoc, add_comm 1 k]
  · change s.stored.map Prod.snd = (s.taken ++ [(t, s.mbox.msgs s.mbox.readpos)]).map Prod.snd ++
      window s.mbox.msgs s.mbox.len ((s.mbox.readpos + 1) % s.mbox.len) k
    rw [List.map_append, h.fifo, window_succ, window_mod, mod_eq_of_lt h.readpos, List.append_assoc]
    rfl
  · rw [hpc]
    change s.mbox.writesem + 0 + k + 1 = s.mbox.writesem + 0 + (k + 1) + 0
    omega
  · rw [hpc]
    change s.mbox.readsem + 0 + 0 + (k + 1) = s.mbox.readsem + 0 + 1 + k
    omega
  · exact forall_update trivial fun u _ => h.since u
  · change (s.failed || decide (s.mbox.readpos = s.mbox.writepos)) = false
    rw [h.failed, decide_eq_false hne.symm]
    rfl

omit [Fintype T] [DecidableEq T] in
private theorem elapsed_ne {clock : Nat} (hs : since ≤ clock) (hc : clock < nsecMax) :
    (clock + (nsecMax + 1) - since) % (nsecMax + 1) ≠ nsecMax := by
  have he : clock + (nsecMax + 1) - since = clock - since + (nsecMax + 1) := by omega
  rw [he, add_mod_right, mod_eq_of_lt (by omega)]
  omega

omit [Fintype T] in
private theorem MboxState.exec_elapsed (hpc : s.pc t = .elapsed op since) (hs : since ≤ s.clock)
    (hc : s.clock < nsecMax) :
    s.exec t = s.goto t (.enter op) := by
  rw [exec, hpc]
  exact if_pos (elapsed_ne hs hc)

/-- Every step of a thread keeps the invariant. -/
theorem MboxInv.exec (h : MboxInv size n s) (hclock : s.clock < nsecMax) : ∃ k, MboxInv size k (s.exec t) := by
  have hsince := h.since t
  cases hpc : s.pc t with
  | ret r =>
    rw [MboxState.exec, hpc]
    exact ⟨n, h⟩
  | begin op k =>
    have hzero : (s.pc t).storing = 0 ∧ (s.pc t).stored = 0 ∧ (s.pc t).taking = 0 ∧ (s.pc t).taken = 0 := by
      rw [hpc]
      exact ⟨rfl, rfl, rfl, rfl⟩
    refine ⟨n, ?_⟩
    rw [MboxState.exec, hpc]
    cases k with
    | down =>
      dsimp only
      split
      case isTrue hpos => exact h.down hpos hzero (.inl rfl) trivial
      case isFalse => exact h
    | downTry =>
      dsimp only
      split
      case isTrue hpos => exact h.down hpos hzero (.inl rfl) trivial
      case isFalse => exact MboxInv.ret (h.idle hzero ⟨rfl, rfl, rfl, rfl⟩ trivial)
    | downTo timeout => exact h.idle hzero ⟨rfl, rfl, rfl, rfl⟩ (le_refl s.clock)
  | wait op since deadline =>
    have hzero : (s.pc t).storing = 0 ∧ (s.pc t).stored = 0 ∧ (s.pc t).taking = 0 ∧ (s.pc t).taken = 0 := by
      rw [hpc]
      exact ⟨rfl, rfl, rfl, rfl⟩
    rw [hpc] at hsince
    refine ⟨n, ?_⟩
    rw [MboxState.exec, hpc]
    dsimp only
    split
    case isTrue hpos => exact h.down hpos hzero (.inr ⟨since, rfl⟩) hsince
    case isFalse =>
      split
      · exact MboxInv.ret (h.idle hzero ⟨rfl, rfl, rfl, rfl⟩ trivial)
      · exact h
  | elapsed op since =>
    rw [hpc] at hsince
    refine ⟨n, ?_⟩
    rw [exec_elapsed hpc hsince hclock]
    refine h.move (m := s.mbox) rfl (h.tokens.step ?_ ?_) trivial <;> rw [hpc] <;> cases op <;> rfl
  | enter op =>
    rw [MboxState.exec, hpc]
    cases op with
    | post msg => exact ⟨n + 1, h.store hpc⟩
    | recv =>
      have hpos : 0 < n := h.tokens.message (t := t) (by rw [hpc]; rfl)
      obtain ⟨k, rfl⟩ : ∃ k, n = k + 1 := ⟨n - 1, by omega⟩
      exact ⟨k, h.take hpc⟩
  | upRead msg =>
    rw [MboxState.exec, hpc]
    refine ⟨n, MboxInv.ret (h.move rfl (h.tokens.step ?_ ?_) trivial)⟩
    · rw [hpc]
      rfl
    · rw [hpc]
      change s.mbox.readsem + 1 + 0 + 0 + n = s.mbox.readsem + 1 + 0 + n
      rfl
  | upWrite msg =>
    rw [MboxState.exec, hpc]
    refine ⟨n, MboxInv.ret (h.move rfl (h.tokens.step ?_ ?_) trivial)⟩
    · rw [hpc]
      change s.mbox.writesem + 1 + 0 + n + 0 = s.mbox.writesem + 0 + n + 1
      omega
    · rw [hpc]
      rfl

private theorem MboxInv.call (h : MboxInv size n s) {k : Down} : MboxInv size n (s.call t op k) := by
  unfold MboxState.call
  split
  case h_1 r hpc => exact h.idle (by rw [hpc]; exact ⟨rfl, rfl, rfl, rfl⟩) ⟨rfl, rfl, rfl, rfl⟩ trivial
  case h_2 => exact h

section

omit [DecidableEq T]

private theorem MboxInv.tick (h : MboxInv size n s) (d : Nat) : MboxInv size n { s with clock := s.clock + d } := by
  refine ⟨h.len, h.readpos, h.writepos, h.fifo, h.tokens, fun t => ?_, h.failed⟩
  have hs := h.since t
  cases hpc : s.pc t with
  | wait op since deadline | elapsed op since =>
    rw [hpc] at hs
    exact le_add_right_of_le hs
  | ret | begin | enter | upRead | upWrite => trivial

/-- An empty mailbox satisfies the invariant. -/
theorem MboxInv.init (size : Nat) (mem : Nat → M) (clock : Nat) :
    MboxInv size 0 (MboxState.init size mem clock : MboxState T M) := by
  have hzero : ∑ _t : T, 0 = 0 := Finset.sum_const_zero
  refine ⟨rfl, succ_pos size, (zero_mod _).symm, rfl, ⟨?_, ?_⟩, fun _ => trivial, rfl⟩
  · change size + ∑ _t : T, 0 + 0 + ∑ _t : T, 0 = size
    rw [hzero]
    rfl
  · change 0 + ∑ _t : T, 0 + ∑ _t : T, 0 = 0
    rw [hzero]

private theorem MboxInv.contents_eq (h : MboxInv size n s) :
    s.mbox.contents = window s.mbox.msgs s.mbox.len s.mbox.readpos n := by
  have hlen := h.len
  have hw := h.tokens.write
  have hr := h.readpos
  have hn : (s.mbox.writepos + s.mbox.len - s.mbox.readpos) % s.mbox.len = n := by
    rw [h.writepos]
    by_cases hwrap : s.mbox.readpos + n < s.mbox.len
    · have he : s.mbox.readpos + n + s.mbox.len - s.mbox.readpos = n + s.mbox.len := by omega
      rw [mod_eq_of_lt hwrap, he, add_mod_right, mod_eq_of_lt (by omega)]
    · have hpos : (s.mbox.readpos + n) % s.mbox.len = s.mbox.readpos + n - s.mbox.len := by
        rw [mod_eq_sub_mod (by omega), mod_eq_of_lt (by omega)]
      have he : s.mbox.readpos + n - s.mbox.len + s.mbox.len - s.mbox.readpos = n := by omega
      rw [hpos, he, mod_eq_of_lt (by omega)]
  rw [Mbox.contents, hn]

end

omit [Fintype T] in
private theorem MboxState.goto_pc : (s.goto t p).pc t = p := Function.update_self ..

omit [Fintype T] in
private theorem MboxState.ret_pc {r : MboxResult M} : (s.ret t op r).pc t = .ret r := Function.update_self ..

omit [Fintype T] in
private theorem MboxState.exec_noToken (h : (s.pc t).noToken = true) (h' : ((s.exec t).pc t).noToken = true) :
    (s.exec t).mbox = s.mbox ∧ (s.exec t).stored = s.stored ∧ (s.exec t).taken = s.taken := by
  unfold exec at h' ⊢
  cases hpc : s.pc t with
  | begin op k =>
    rw [hpc] at h'
    cases k with
    | down | downTry =>
      dsimp only at h' ⊢
      split at h'
      case isTrue =>
        rw [goto_pc] at h'
        cases h'
      case isFalse hpos =>
        rw [if_neg hpos]
        exact ⟨rfl, rfl, rfl⟩
    | downTo timeout => exact ⟨rfl, rfl, rfl⟩
  | wait op since deadline =>
    rw [hpc] at h'
    dsimp only at h' ⊢
    split at h'
    case isTrue =>
      rw [goto_pc] at h'
      cases h'
    case isFalse hpos =>
      rw [if_neg hpos]
      split <;> exact ⟨rfl, rfl, rfl⟩
  | ret r => exact ⟨rfl, rfl, rfl⟩
  | elapsed | enter | upRead | upWrite =>
    rw [hpc] at h
    cases h

private theorem MboxInv.noToken_of_failed (h : MboxInv size n s) (hclock : s.clock < nsecMax)
    (hfail : (s.exec t).pc t = .ret .failed) : (s.pc t).noToken = true := by
  have hsince := h.since t
  cases hpc : s.pc t with
  | ret r =>
    have he : s.exec t = s := by rw [MboxState.exec, hpc]
    rw [he, hpc] at hfail
    cases hfail
    rfl
  | begin op k => rfl
  | wait op since deadline => rfl
  | elapsed op since =>
    rw [hpc] at hsince
    rw [exec_elapsed hpc hsince hclock, goto_pc] at hfail
    cases hfail
  | enter op =>
    unfold MboxState.exec at hfail
    rw [hpc] at hfail
    cases op with
    | post msg | recv => cases goto_pc.symm.trans hfail
  | upRead msg | upWrite msg =>
    unfold MboxState.exec at hfail
    rw [hpc] at hfail
    cases ret_pc.symm.trans hfail

omit [Fintype T]

/-- The messages that one thread has stored or taken. -/
def messagesOf (t : T) (l : List (T × M)) : List M := l.filterMap fun e => if e.1 = t then some e.2 else none

def postedBy (t : T) : T × MboxOp M × MboxResult M → Option M
  | (u, .post msg, .posted) => if u = t then some msg else none
  | _ => none

def receivedBy (t : T) : T × MboxOp M × MboxResult M → Option M
  | (u, .recv, .received msg) => if u = t then some msg else none
  | _ => none

/-- The result of the last operation of a thread that has returned. -/
def lastResult (t : T) (l : List (T × MboxOp M × MboxResult M)) : MboxResult M :=
  l.foldl (fun r e => if e.1 = t then e.2.2 else r) .none

/-- The message a thread has stored and not yet reported. -/
def MboxPc.unreported : MboxPc M → List M
  | .upRead msg => [msg]
  | _ => []

/-- The message a thread has taken and not yet returned. -/
def MboxPc.inHand : MboxPc M → List M
  | .upWrite msg => [msg]
  | _ => []

/-- A thread that is not in an operation has the result of its last one. The posts of each thread that returned
success are those that stored their message, and its receives returned the messages it took, each in the order of the
operations. -/
structure Results (s : MboxState T M) : Prop where
  last : ∀ t r, s.pc t = .ret r → lastResult t s.done = r
  posted : ∀ t, s.done.filterMap (postedBy t) ++ (s.pc t).unreported = messagesOf t s.stored
  received : ∀ t, s.done.filterMap (receivedBy t) ++ (s.pc t).inHand = messagesOf t s.taken

section
variable (h : Results s)
include h

/-- What one thread adds to the three records in a step is accounted for by the places it leaves and reaches. -/
private theorem Results.add {s' : MboxState T M} {d : List (MboxOp M × MboxResult M)} {a b : List M}
    (hpc : s'.pc = Function.update s.pc t p) (hd : s'.done = s.done ++ d.map (t, ·))
    (hst : s'.stored = s.stored ++ a.map (t, ·)) (htk : s'.taken = s.taken ++ b.map (t, ·))
    (hp : (d.map (t, ·)).filterMap (postedBy t) ++ p.unreported = (s.pc t).unreported ++ a)
    (hr : (d.map (t, ·)).filterMap (receivedBy t) ++ p.inHand = (s.pc t).inHand ++ b)
    (hl : ∀ r, p = .ret r → lastResult t s'.done = r) : Results s' := by
  have hother : ∀ u, u ≠ t → ∀ l : List M, messagesOf u (l.map (t, ·)) = [] := by
    intro u hu l
    simp [messagesOf, List.filterMap_map, hu.symm]
  have hown : ∀ l : List M, messagesOf t (l.map (t, ·)) = l := by
    intro l
    simp [messagesOf, List.filterMap_map]
  have happ : ∀ u (l l' : List (T × M)), messagesOf u (l ++ l') = messagesOf u l ++ messagesOf u l' := by
    intro u l l'
    exact List.filterMap_append ..
  have hkeep : ∀ u, u ≠ t → ∀ r : MboxResult M, (d.map (t, ·)).foldl (fun r e => if e.1 = u then e.2.2 else r) r =
    r := by
    intro u hu r
    rw [List.foldl_map]
    simp only [if_neg hu.symm, List.foldl_fixed]
  refine ⟨?_, ?_, ?_⟩
  · rw [hpc]
    refine forall_update (P := fun u (q : MboxPc M) => ∀ r, q = .ret r → lastResult u s'.done = r) hl
      fun u hu r hur => ?_
    rw [hd, lastResult, List.foldl_append, hkeep u hu]
    exact h.last u r hur
  · rw [hpc, hd, hst]
    refine forall_update (P := fun u (q : MboxPc M) => (s.done ++ _).filterMap (postedBy u) ++ q.unreported = _)
      ?_ fun u hu => ?_
    · rw [List.filterMap_append, List.append_assoc, hp, ← List.append_assoc, h.posted t, happ, hown]
    · have hnone : (d.map (t, ·)).filterMap (postedBy u) = [] := by
        refine List.filterMap_eq_nil_iff.2 fun e he => ?_
        obtain ⟨x, -, rfl⟩ := List.mem_map.1 he
        unfold postedBy
        split
        next heq => cases heq; exact if_neg hu.symm
        next => rfl
      rw [List.filterMap_append, hnone, List.append_nil, h.posted u, happ, hother u hu, List.append_nil]
  · rw [hpc, hd, htk]
    refine forall_update (P := fun u (q : MboxPc M) => (s.done ++ _).filterMap (receivedBy u) ++ q.inHand = _)
      ?_ fun u hu => ?_
    · rw [List.filterMap_append, List.append_assoc, hr, ← List.append_assoc, h.received t, happ, hown]
    · have hnone : (d.map (t, ·)).filterMap (receivedBy u) = [] := by
        refine List.filterMap_eq_nil_iff.2 fun e he => ?_
        obtain ⟨x, -, rfl⟩ := List.mem_map.1 he
        unfold receivedBy
        split
        next heq => cases heq; exact if_neg hu.symm
        next => rfl
      rw [List.filterMap_append, hnone, List.append_nil, h.received u, happ, hother u hu, List.append_nil]

private theorem Results.goto {m : Mbox M} (hp : p.unreported = (s.pc t).unreported) (hr : p.inHand = (s.pc t).inHand)
    (hl : ∀ r, p ≠ .ret r) : Results ({ s with mbox := m }.goto t p) := by
  refine h.add (d := []) (a := []) (b := []) rfl ?_ ?_ ?_ ?_ ?_ fun r hp => absurd hp (hl r)
  · exact (List.append_nil _).symm
  · exact (List.append_nil _).symm
  · exact (List.append_nil _).symm
  · rw [List.append_nil, ← hp]
    rfl
  · rw [List.append_nil, ← hr]
    rfl

private theorem Results.ret {m : Mbox M} {r : MboxResult M}
    (hp : [(t, op, r)].filterMap (postedBy t) = (s.pc t).unreported)
    (hr : [(t, op, r)].filterMap (receivedBy t) = (s.pc t).inHand) : Results ({ s with mbox := m }.ret t op r) := by
  refine h.add (d := [(op, r)]) (a := []) (b := []) rfl rfl ?_ ?_ ?_ ?_ ?_
  · exact (List.append_nil _).symm
  · exact (List.append_nil _).symm
  · rw [← hp]
    rfl
  · rw [← hr]
    rfl
  · rintro _ ⟨⟩
    change lastResult t (s.done ++ [(t, op, r)]) = r
    rw [lastResult, List.foldl_append]
    exact if_pos rfl

private theorem Results.enter (hpc : s.pc t = .enter op) : Results (s.enter t op) := by
  cases op with
  | post msg =>
    refine h.add (d := []) (a := [msg]) (b := []) rfl ?_ rfl ?_ ?_ ?_ fun r hp => by cases hp
    · exact (List.append_nil _).symm
    · exact (List.append_nil _).symm
    · rw [hpc]
      rfl
    · rw [hpc]
      rfl
  | recv =>
    refine h.add (d := []) (a := []) (b := [s.mbox.msgs s.mbox.readpos]) rfl ?_ ?_ rfl ?_ ?_ fun r hp => by cases hp
    · exact (List.append_nil _).symm
    · exact (List.append_nil _).symm
    · rw [hpc]
      rfl
    · rw [hpc]
      rfl

/-- Every step of a thread reports what it has stored or taken. -/
theorem Results.exec (t : T) : Results (s.exec t) := by
  have hgoto : ∀ {m : Mbox M} {p : MboxPc M}, (s.pc t).unreported = [] → (s.pc t).inHand = [] → p.unreported = [] →
      p.inHand = [] → (∀ r, p ≠ .ret r) → Results ({ s with mbox := m }.goto t p) :=
    fun hu hi hp hr hl => h.goto (hp.trans hu.symm) (hr.trans hi.symm) hl
  have hfail : ∀ {op : MboxOp M}, (s.pc t).unreported = [] → (s.pc t).inHand = [] → Results (s.ret t op .failed) := by
    intro op hu hi
    refine h.ret (m := s.mbox) ?_ ?_
    · rw [hu]
      cases op <;> rfl
    · rw [hi]
      cases op <;> rfl
  cases hpc : s.pc t with
  | ret r =>
    rw [MboxState.exec, hpc]
    exact h
  | begin op k =>
    rw [hpc] at hgoto hfail
    rw [MboxState.exec, hpc]
    cases k with
    | down =>
      dsimp only
      split
      · exact hgoto rfl rfl rfl rfl fun r hr => by cases hr
      · exact h
    | downTry =>
      dsimp only
      split
      · exact hgoto rfl rfl rfl rfl fun r hr => by cases hr
      · exact hfail rfl rfl
    | downTo timeout => exact hgoto (m := s.mbox) rfl rfl rfl rfl fun r hr => by cases hr
  | wait op since deadline =>
    rw [hpc] at hgoto hfail
    rw [MboxState.exec, hpc]
    dsimp only
    split
    · exact hgoto rfl rfl rfl rfl fun r hr => by cases hr
    · split
      · exact hfail rfl rfl
      · exact h
  | elapsed op since =>
    rw [hpc] at hgoto hfail
    rw [MboxState.exec, hpc]
    dsimp only
    split
    · exact hgoto (m := s.mbox) rfl rfl rfl rfl fun r hr => by cases hr
    · exact hfail rfl rfl
  | enter op =>
    rw [MboxState.exec, hpc]
    exact h.enter hpc
  | upRead msg =>
    rw [MboxState.exec, hpc]
    refine h.ret ?_ ?_ <;> rw [hpc]
    · simp [postedBy, MboxPc.unreported]
    · rfl
  | upWrite msg =>
    rw [MboxState.exec, hpc]
    refine h.ret ?_ ?_ <;> rw [hpc]
    · rfl
    · simp [receivedBy, MboxPc.inHand]

private theorem Results.call {k : Down} : Results (s.call t op k) := by
  unfold MboxState.call
  split
  case h_1 r hpc => exact h.goto (m := s.mbox) (by rw [hpc]; rfl) (by rw [hpc]; rfl) fun r hr => by cases hr
  case h_2 => exact h

end

end

/-- A bounded queue: at most `size` messages, taken in the order in which they were stored; operations that fail
change nothing, and when no operation is in progress the semaphores count the messages and the free places. -/
structure MboxOk [DecidableEq T] (size : Nat) (s : MboxState T M) : Prop where
  bound : s.mbox.contents.length ≤ size
  fifo : s.stored.map Prod.snd = s.taken.map Prod.snd ++ s.mbox.contents
  results : Results s
  failed : s.failed = false
  unchanged : ∀ t, (s.pc t).noToken = true → ((s.exec t).pc t).noToken = true →
    (s.exec t).mbox = s.mbox ∧ (s.exec t).stored = s.stored ∧ (s.exec t).taken = s.taken
  token : s.clock < nsecMax → ∀ t, (s.exec t).pc t = .ret .failed → (s.pc t).noToken = true
  count : (∀ t, ∃ r, s.pc t = .ret r) → s.mbox.readsem = s.mbox.contents.length ∧
    s.mbox.writesem = size - s.mbox.contents.length

section
variable [Fintype T] [DecidableEq T]

private theorem MboxInv.ok (h : MboxInv size n s) (hres : Results s) : MboxOk size s := by
  have hn : s.mbox.contents.length = n := by rw [h.contents_eq, length_window]
  have hw := h.tokens.write
  have hr := h.tokens.read
  refine ⟨by omega, ?_, hres, h.failed, fun t => exec_noToken, fun hclock t => h.noToken_of_failed hclock,
      fun hidle => ?_⟩
  · rw [h.contents_eq]
    exact h.fifo
  · have hzero : ∀ f : MboxPc M → Nat, (∀ r, f (.ret r) = 0) → ∑ t, f (s.pc t) = 0 := by
      intro f hf
      refine Finset.sum_eq_zero fun t _ => ?_
      obtain ⟨r, hpc⟩ := hidle t
      rw [hpc, hf]
    rw [hzero MboxPc.storing fun _ => rfl, hzero MboxPc.taken fun _ => rfl] at hw
    rw [hzero MboxPc.stored fun _ => rfl, hzero MboxPc.taking fun _ => rfl] at hr
    omega

end

end Unikraft.Ukmpi
