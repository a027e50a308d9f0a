import Unikraft.Poll.Select

/-!
# What pselect and ppoll report

The count of `pselect` is the number of ready descriptors, while the result has a bit for each set a descriptor is
ready for. `ppoll` registers the entries with a descriptor in their order, which answers those that cannot be
registered at once. Only if none has an answer does the call wait, and the events are matched to the entries by one
scan over the array.
-/

namespace Unikraft.Poll

open Env List Select

/-- The events of a file; one without epoll support is always ready for reading and writing. -/
def File.events : File → Events
  | .closed => 0
  | .uk level => level
  | .legacy err level => if err = 0 then level else UKFD_POLLIN ||| UKFD_POLLOUT

variable (env : Env) (a : Select)

/-- Each bit of the result was set in the input, lies below `nfds` and belongs to a file with one of the events
`S`. -/
def Sound (input result : Option FdSet) (S : Events) : Prop :=
  ∀ i, isSet result i = true → isSet input i = true ∧ (i : Int) < a.nfds ∧ (env.files i).events &&& S ≠ 0

def ClosedReq : Prop :=
  ∃ fd : Nat, (fd : Int) < a.nfds ∧ (isSet a.readfds fd ∨ isSet a.writefds fd ∨ isSet a.exceptfds fd) ∧
    env.files fd = .closed

def SelectOk : Prop :=
  match ukSysPselect env a with
  | .undefined => False
  | .blocks => ¬ClosedReq env a
  | .ret n rd wr ex _ =>
    (0 ≤ n → n = (bits rd + bits wr + bits ex : Nat) ∧ Sound env a a.readfds rd SELECT_READ ∧
      Sound env a a.writefds wr SELECT_WRITE ∧ Sound env a a.exceptfds ex SELECT_EXCEPT) ∧
    (ClosedReq env a → n = -EBADF ∧ rd = a.readfds ∧ wr = a.writefds ∧ ex = a.exceptfds)

/-- The number of sets in which a descriptor is requested for an event of its file. -/
def matching (fd : Nat) : Nat :=
  (if isSet a.readfds fd ∧ (env.files fd).level &&& SELECT_READ ≠ 0 then 1 else 0) +
  (if isSet a.writefds fd ∧ (env.files fd).level &&& SELECT_WRITE ≠ 0 then 1 else 0) +
  (if isSet a.exceptfds fd ∧ (env.files fd).level &&& SELECT_EXCEPT ≠ 0 then 1 else 0)

/-- A ready descriptor with an error or a hang-up is in `exceptfds`, if there is one, and the sets beyond the first
that match a ready descriptor are as many as the ready descriptors that match none. -/
def CountsMatch : Prop :=
  (∀ q ∈ env.ready a.reqs, (env.files q.1).level &&& UKFD_POLL_ALWAYS ≠ 0 → a.exceptfds = none ∨
      isSet a.exceptfds q.1 = true) ∧
  ((env.ready a.reqs).map fun q => matching env a q.1 - 1).sum = (env.ready a.reqs).countP
    fun q => matching env a q.1 = 0

structure SelectFine (env : Env) (a : Select) : Prop where
  defined : ¬Refused env a → env.stop a.reqs ≠ some .undefined
  /-- A descriptor that is not open is the first that fails, with no file that is ready at once before it. -/
  badf : ClosedReq env a →
    ¬Refused env a ∧ env.stop a.reqs = some (.fail EBADF) ∧ ∀ q ∈ env.accepted a.reqs, ¬Immediate env a q
  counts : ¬Refused env a → env.stop a.reqs = none → (∀ q ∈ a.reqs, ¬Immediate env a q) → CountsMatch env a

section
variable {env : Env} {a : Select} {q : Nat × Events} {s : Sel} {Q : List (Nat × Events)}

private theorem not_closedReq (h : env.stop a.reqs = none) : ¬ClosedReq env a := by
  rintro ⟨fd, hlt, hset, hf⟩
  have hq : (fd, a.mask fd) ∈ a.reqs := mem_reqs.2 ⟨hlt, mask_ne_zero.2 hset, rfl⟩
  have hacc : env.accepts (fd, a.mask fd) = true := accepts_of_mem_accepted (accepted_of_stop_none h ▸ hq)
  simp [accepts, reg, hf] at hacc

private theorem stop_some {r : Reg} (h : env.stop a.reqs = some r) : r = .undefined ∨ ∃ e, 0 < e ∧ r = .fail e := by
  obtain ⟨q, hq, rfl⟩ := Option.map_eq_some_iff.1 h
  have hacc : env.accepts q = false := by simpa using List.find?_some hq
  cases hreg : env.reg q.1 q.2 with
  | undefined => exact .inl rfl
  | ok | perm => simp [accepts, hreg] at hacc
  | fail e =>
    exact .inr ⟨e, (fail_pos hreg).1, rfl⟩

private theorem events_of_perm (h : env.reg q.1 q.2 = .perm) :
    (env.files q.1).events = UKFD_POLLIN ||| UKFD_POLLOUT := by
  unfold reg at h
  cases hf : env.files q.1 with
  | closed => simp [hf] at h
  | uk level =>
    rw [hf] at h
    dsimp only at h
    split at h <;> cases h
  | legacy err level =>
    rw [hf] at h
    dsimp only at h
    by_cases herr : err = 0
    · split at h
      · split at h <;> cases h
      · cases h
    · rw [File.events, if_neg herr]

private theorem events_of_ready (h : q ∈ env.ready Q) : (env.files q.1).events = (env.files q.1).level := by
  obtain ⟨-, hok, hne⟩ := (mem_filter.1 h).imp id of_decide_eq_true
  unfold reg at hok
  unfold pending at hne
  cases hf : env.files q.1 with
  | closed => simp [hf] at hok
  | uk level => rfl
  | legacy err level =>
    rw [hf] at hok hne
    dsimp only at hok
    by_cases herr : err = 0
    · rw [File.events, if_pos herr]
      rfl
    · split at hok
      · split at hok <;> cases hok
      · cases hok

private theorem mask_and_read (fd : Nat) : events2mask (a.mask fd) &&& SELECT_READ = a.r fd := by
  unfold mask r w x
  cases isSet a.readfds fd <;> cases isSet a.writefds fd <;> cases isSet a.exceptfds fd <;> decide

private theorem mask_and_write (fd : Nat) : events2mask (a.mask fd) &&& SELECT_WRITE = a.w fd := by
  unfold mask r w x
  cases isSet a.readfds fd <;> cases isSet a.writefds fd <;> cases isSet a.exceptfds fd <;> decide

private theorem mask_and_except (fd : Nat) :
    events2mask (a.mask fd) &&& SELECT_EXCEPT = if isSet a.exceptfds fd then SELECT_EXCEPT else UKFD_POLL_ALWAYS := by
  unfold mask r w x
  cases isSet a.readfds fd <;> cases isSet a.writefds fd <;> cases isSet a.exceptfds fd <;> decide

private theorem pending_read (h : q.2 = a.mask q.1) :
    env.pending q &&& SELECT_READ ≠ 0 ↔ isSet a.readfds q.1 ∧ (env.files q.1).level &&& SELECT_READ ≠ 0 := by
  rw [pending, h, BitVec.and_assoc, mask_and_read, r]
  cases isSet a.readfds q.1 <;> simp

private theorem pending_write (h : q.2 = a.mask q.1) :
    env.pending q &&& SELECT_WRITE ≠ 0 ↔ isSet a.writefds q.1 ∧ (env.files q.1).level &&& SELECT_WRITE ≠ 0 := by
  rw [pending, h, BitVec.and_assoc, mask_and_write, w]
  cases isSet a.writefds q.1 <;> simp

private theorem pending_except (h : q.2 = a.mask q.1) :
    env.pending q &&& SELECT_EXCEPT ≠ 0 ↔ if isSet a.exceptfds q.1 then (env.files q.1).level &&& SELECT_EXCEPT ≠ 0
      else (env.files q.1).level &&& UKFD_POLL_ALWAYS ≠ 0 := by
  rw [pending, h, BitVec.and_assoc, mask_and_except]
  cases isSet a.exceptfds q.1 <;> simp

private theorem sum_surplus (f : Nat × Events → Nat) (L : List (Nat × Events)) :
    (L.map fun q => f q - 1).sum + L.length = (L.map f).sum + L.countP fun q => f q = 0 := by
  induction L with
  | nil => rfl
  | cons q L ih =>
    by_cases h : f q = 0
    all_goals
      simp [h]
      omega

private theorem sum_matching (L : List (Nat × Events)) : (L.map fun q => matching env a q.1).sum =
      L.countP (fun q => isSet a.readfds q.1 ∧ (env.files q.1).level &&& SELECT_READ ≠ 0) +
      L.countP (fun q => isSet a.writefds q.1 ∧ (env.files q.1).level &&& SELECT_WRITE ≠ 0) +
      L.countP (fun q => isSet a.exceptfds q.1 ∧ (env.files q.1).level &&& SELECT_EXCEPT ≠ 0) := by
  induction L with
  | nil => rfl
  | cons q L ih =>
    rw [map_cons, sum_cons, ih, countP_cons, countP_cons, countP_cons]
    simp only [matching, decide_eq_true_eq]
    omega

def Env.found (env : Env) (a : Select) : List (Int × Events) :=
  (env.ready a.reqs).map fun q => ((q.1 : Int), env.pending q)

private theorem mem_reqs_of_ready (h : q ∈ env.ready a.reqs) : q ∈ a.reqs := (mem_filter.1 h).1

variable {input : Option FdSet} {f : FdSet} {S : Events} {i : Nat}

private theorem isSet_map (h : isSet (input.map fun _ => f) i = true) : input ≠ none ∧ f i = true := by
  cases input with
  | none => cases h
  | some z => exact ⟨Option.some_ne_none z, h⟩

private theorem bits_found {p : Nat × Events → Bool} (h : ¬Refused env a)
    (hp : ∀ q ∈ env.ready a.reqs, p q = true ↔ input ≠ none ∧ env.pending q &&& S ≠ 0) :
    bits (input.map fun _ => hits (env.found a) S) = (env.ready a.reqs).countP p := by
  cases input with
  | none =>
    refine (countP_eq_zero.2 fun q hq => ?_).symm
    simp [hp q hq]
  | some z =>
    have hle : a.nfds ≤ FD_SETSIZE := Int.not_lt.1 fun hlt => h (.inr (.inr (.inl hlt)))
    have hsorted : (env.ready a.reqs).Pairwise fun p q => p.1 < q.1 := (reqs_sorted a).sublist filter_sublist
    have hnd : ((env.ready a.reqs).map Prod.fst).Nodup := pairwise_map.2 (hsorted.imp Nat.ne_of_lt)
    rw [Option.map_some, found, bits_hits env.pending S hnd]
    · refine countP_congr fun q hq => ?_
      simp [hp q hq]
    · intro q hq
      have := (mem_reqs.1 (mem_reqs_of_ready hq)).1
      omega

private theorem sound_found (hp : ∀ q ∈ env.ready a.reqs, input ≠ none → env.pending q &&& S ≠ 0 →
      isSet input q.1 = true ∧ (env.files q.1).level &&& S ≠ 0) :
    Sound env a input (input.map fun _ => hits (env.found a) S) S := by
  intro i hi
  obtain ⟨hne, hhit⟩ := isSet_map hi
  obtain ⟨q, hq, rfl, hS⟩ := hits_iff.1 hhit
  obtain ⟨hset, hlev⟩ := hp q hq hne hS
  refine ⟨hset, (mem_reqs.1 (mem_reqs_of_ready hq)).1, ?_⟩
  rwa [events_of_ready hq]

private theorem ne_none_of_isSet (h : isSet input i = true) : input ≠ none := by
  rintro rfl
  cases h

/-- The number that is returned is that of the bits that are set, and these are right, exactly if `CountsMatch`
holds. -/
theorem counts_iff (h : ¬Refused env a) :
    (((env.ready a.reqs).length : Int) = (bits (a.readfds.map fun _ => hits (env.found a) SELECT_READ) +
          bits (a.writefds.map fun _ => hits (env.found a) SELECT_WRITE) +
          bits (a.exceptfds.map fun _ => hits (env.found a) SELECT_EXCEPT) : Nat) ∧
        Sound env a a.readfds (a.readfds.map fun _ => hits (env.found a) SELECT_READ) SELECT_READ ∧
        Sound env a a.writefds (a.writefds.map fun _ => hits (env.found a) SELECT_WRITE) SELECT_WRITE ∧
        Sound env a a.exceptfds (a.exceptfds.map fun _ => hits (env.found a) SELECT_EXCEPT) SELECT_EXCEPT) ↔
      CountsMatch env a := by
  have hmask : ∀ q ∈ env.ready a.reqs, q.2 = a.mask q.1 := fun q hq => (mem_reqs.1 (mem_reqs_of_ready hq)).2.2
  have hrd : bits (a.readfds.map fun _ => hits (env.found a) SELECT_READ) = (env.ready a.reqs).countP fun q =>
      isSet a.readfds q.1 ∧ (env.files q.1).level &&& SELECT_READ ≠ 0 := by
    refine bits_found h fun q hq => ?_
    rw [decide_eq_true_eq, pending_read (hmask q hq)]
    exact ⟨fun hs => ⟨ne_none_of_isSet hs.1, hs⟩, fun hs => hs.2⟩
  have hwr : bits (a.writefds.map fun _ => hits (env.found a) SELECT_WRITE) = (env.ready a.reqs).countP fun q =>
      isSet a.writefds q.1 ∧ (env.files q.1).level &&& SELECT_WRITE ≠ 0 := by
    refine bits_found h fun q hq => ?_
    rw [decide_eq_true_eq, pending_write (hmask q hq)]
    exact ⟨fun hs => ⟨ne_none_of_isSet hs.1, hs⟩, fun hs => hs.2⟩
  have hsum := sum_surplus (fun q => matching env a q.1) (env.ready a.reqs)
  rw [sum_matching] at hsum
  -- with no bit outside `exceptfds` the third count is also that of the matches
  have hex : (∀ q ∈ env.ready a.reqs, (env.files q.1).level &&& UKFD_POLL_ALWAYS ≠ 0 →
      a.exceptfds = none ∨ isSet a.exceptfds q.1 = true) →
      bits (a.exceptfds.map fun _ => hits (env.found a) SELECT_EXCEPT) = (env.ready a.reqs).countP fun q =>
        isSet a.exceptfds q.1 ∧ (env.files q.1).level &&& SELECT_EXCEPT ≠ 0 := by
    intro hall
    refine bits_found h fun q hq => ?_
    rw [decide_eq_true_eq, pending_except (hmask q hq)]
    split
    next hset =>
      exact ⟨fun hs => ⟨ne_none_of_isSet hset, hs.2⟩, fun hs => ⟨hset, hs.2⟩⟩
    next hset =>
      exact ⟨fun hs => absurd hs.1 hset, fun hs => absurd ((hall q hq hs.2).resolve_left hs.1) hset⟩
  constructor
  · rintro ⟨hn, -, -, hsound⟩
    have hall : ∀ q ∈ env.ready a.reqs, (env.files q.1).level &&& UKFD_POLL_ALWAYS ≠ 0 →
        a.exceptfds = none ∨ isSet a.exceptfds q.1 = true := by
      intro q hq hlev
      by_cases hnone : a.exceptfds = none
      · exact .inl hnone
      · obtain ⟨z, hz⟩ := Option.ne_none_iff_exists'.1 hnone
        by_cases hset : isSet a.exceptfds q.1 = true
        · exact .inr hset
        · have hhit : hits (env.found a) SELECT_EXCEPT q.1 = true := by
            refine hits_iff.2 ⟨q, hq, rfl, (pending_except (hmask q hq)).2 ?_⟩
            rwa [if_neg hset]
          refine .inr (hsound q.1 ?_).1
          rw [hz]
          exact hhit
    rw [hex hall] at hn
    exact ⟨hall, by omega⟩
  · rintro ⟨hall, heq⟩
    rw [hex hall]
    refine ⟨by omega, sound_found fun q hq _ hS => (pending_read (hmask q hq)).1 hS,
      sound_found fun q hq _ hS => (pending_write (hmask q hq)).1 hS, sound_found fun q hq hne hS => ?_⟩
    rw [pending_except (hmask q hq)] at hS
    split at hS
    next hset =>
      exact ⟨hset, hS⟩
    next hset =>
      exact absurd ((hall q hq hS).resolve_left hne) hset

private theorem bits_immediate {N : Nat} (hle : N ≤ FD_SETSIZE) (hf : ∀ i, f i = true → isSet input i = true) :
    bits (input.map fun _ => below f N) = (List.range N).countP f := by
  cases input with
  | none =>
    refine (countP_eq_zero.2 fun i _ hi => ?_).symm
    cases hf i hi
  | some z => exact bits_below f hle

private theorem sound_immediate (hsub : ∀ q ∈ Q, q ∈ a.reqs) (hS : (UKFD_POLLIN ||| UKFD_POLLOUT) &&& S ≠ 0)
    (hf : ∀ i, f i = true ↔ ∃ q ∈ Q, q.1 = i ∧ env.reg q.1 q.2 = .perm ∧ isSet input i = true) (N : Nat) :
    Sound env a input (input.map fun _ => below f N) S := by
  intro i hi
  obtain ⟨-, hbelow⟩ := isSet_map hi
  obtain ⟨q, hq, rfl, hperm, hset⟩ := (hf i).1 (Bool.and_eq_true _ _ ▸ hbelow).2
  refine ⟨hset, (mem_reqs.1 (hsub q hq)).1, ?_⟩
  rwa [events_of_perm hperm]

private theorem sound_zeroFdset (input : Option FdSet) (S : Events) : Sound env a input (zeroFdset input) S := by
  intro i hi
  cases (isSet_map hi).2

/-- The promise for a call that finds a file that is ready at once: the result of a descriptor that fails is lost. -/
theorem immediate_iff (h : ¬Refused env a) (hs : SelIs env a Q s) (hsub : ∀ q ∈ Q, q ∈ a.reqs) (hq : q ∈ Q)
    (hi : Immediate env a q) (hret : ∃ ret, ukSysPselect env a = selectFinish env a { s with ret := ret }) :
    SelectOk env a ↔ ¬ClosedReq env a := by
  obtain ⟨ret, hret⟩ := hret
  have hle : s.immediate ≤ FD_SETSIZE := by
    rcases hs.immediate with h0 | ⟨p, hp, -, hp'⟩
    · rw [h0]
      exact Nat.zero_le _
    · have hfds : ¬a.nfds > FD_SETSIZE := fun hlt => h (.inr (.inr (.inl hlt)))
      have := (mem_reqs.1 (hsub p hp)).1
      omega
  have hrd : ∀ i, s.immRd i = true → isSet a.readfds i = true := by
    intro i hi
    obtain ⟨p, -, -, -, hset⟩ := (hs.immRd i).1 hi
    exact hset
  have hwr : ∀ i, s.immWr i = true → isSet a.writefds i = true := by
    intro i hi
    obtain ⟨p, -, -, -, hset⟩ := (hs.immWr i).1 hi
    exact hset
  unfold SelectOk
  rw [hret, selectFinish_immediate hs hq hi]
  constructor
  · rintro ⟨-, hbadf⟩ hclosed
    have hneg := (hbadf hclosed).1
    have : EBADF = 9 := rfl
    omega
  · intro hno
    refine ⟨fun _ => ⟨?_, sound_immediate hsub (by decide) hs.immRd _, sound_immediate hsub (by decide) hs.immWr _,
      sound_zeroFdset _ _⟩, fun hclosed => absurd hclosed hno⟩
    rw [bits_immediate hle hrd, bits_immediate hle hwr, bits_zeroFdset, Nat.add_zero]

/-- A call that is refused is right unless a descriptor in it is closed. -/
theorem refused_iff (h : Refused env a) : SelectOk env a ↔ ¬ClosedReq env a := by
  obtain ⟨e, hpos, hne, heq⟩ := pselect_refused h
  unfold SelectOk
  rw [heq]
  constructor
  · rintro ⟨-, hbadf⟩ hclosed
    have := (hbadf hclosed).1
    omega
  · intro hno
    exact ⟨fun hn => by omega, fun hclosed => absurd hclosed hno⟩

/-- An error is right if a closed descriptor gives `-EBADF`. -/
theorem fail_iff {e : Int} (he : 0 < e)
    (heq : ukSysPselect env a = .ret (-e) a.readfds a.writefds a.exceptfds a.timeout) :
    SelectOk env a ↔ (ClosedReq env a → e = EBADF) := by
  unfold SelectOk
  rw [heq]
  constructor
  · rintro ⟨-, hbadf⟩ hclosed
    have := (hbadf hclosed).1
    omega
  · intro hbadf
    refine ⟨fun hn => by omega, fun hclosed => ⟨?_, rfl, rfl, rfl⟩⟩
    rw [hbadf hclosed]

/-- A call that gets to the wait is right exactly if its count is. -/
theorem wait_iff (h : ¬Refused env a) (hs : SelIs env a a.reqs s) (hstop : env.stop a.reqs = none)
    (hno : ∀ q ∈ a.reqs, ¬Immediate env a q) (heq : ukSysPselect env a = selectFinish env a s) :
    SelectOk env a ↔ CountsMatch env a := by
  have hclosed := not_closedReq hstop
  unfold SelectOk
  rw [heq, selectFinish_wait hs hno h]
  by_cases hready : env.ready a.reqs = []
  · have hmatch : CountsMatch env a := by simp [CountsMatch, hready]
    have hcounts := (counts_iff h).2 hmatch
    have hfound : env.found a = [] := by rw [found, hready, map_nil]
    rw [hfound, hready] at hcounts
    rw [if_pos hready, idle]
    refine iff_of_true ?_ hmatch
    by_cases hd : deadlineOf a.timeout (env.clock 1) = 0
    · rw [if_pos hd]
      exact hclosed
    · rw [if_neg hd]
      exact ⟨fun _ => hcounts, fun hc => absurd hc hclosed⟩
  · rw [if_neg hready, ← counts_iff h]
    exact ⟨fun hok => hok.1 (Int.natCast_nonneg _), fun hcounts => ⟨fun _ => hcounts, fun hc => absurd hc hclosed⟩⟩

/-- The promise is kept exactly under the condition. -/
theorem select_reports_iff (env : Env) (a : Select) : SelectOk env a ↔ SelectFine env a := by
  by_cases h : Refused env a
  · rw [refused_iff h]
    exact ⟨fun hno => ⟨fun hn => absurd h hn, fun hc => absurd hc hno, fun hn => absurd h hn⟩,
        fun hf hc => (hf.badf hc).1 h⟩
  · obtain ⟨s, hs, heq⟩ := pselect_run h
    by_cases hi : ∃ q ∈ env.accepted a.reqs, Immediate env a q
    · obtain ⟨q, hq, hi⟩ := hi
      have hsub : ∀ q ∈ env.accepted a.reqs, q ∈ a.reqs := fun q hq => (accepted_sublist env a).subset hq
      have hfine : SelectFine env a ↔ env.stop a.reqs ≠ some .undefined ∧ ¬ClosedReq env a := by
        constructor
        · intro hf
          exact ⟨hf.defined h, fun hc => (hf.badf hc).2.2 q hq hi⟩
        · rintro ⟨hundef, hc⟩
          exact ⟨fun _ => hundef, fun hc' => absurd hc' hc, fun _ _ hno => absurd hi (hno q (hsub q hq))⟩
      rw [hfine]
      cases hstop : env.stop a.reqs with
      | none =>
        rw [hstop] at heq
        rw [immediate_iff h hs hsub hq hi ⟨s.ret, heq⟩]
        simp
      | some r =>
        rcases stop_some hstop with rfl | ⟨e, -, rfl⟩
        · rw [hstop] at heq
          simp [SelectOk, heq]
        · rw [hstop] at heq
          rw [immediate_iff h hs hsub hq hi ⟨-e, heq⟩]
          simp
    · have hno : ∀ q ∈ env.accepted a.reqs, ¬Immediate env a q := fun q hq hq' => hi ⟨q, hq, hq'⟩
      cases hstop : env.stop a.reqs with
      | none =>
        rw [hstop] at heq
        have hacc := accepted_of_stop_none hstop
        rw [hacc] at hs hno
        rw [wait_iff h hs hstop hno heq]
        constructor
        · intro hc
          exact ⟨fun _ => by simp [hstop], fun hcl => absurd hcl (not_closedReq hstop), fun _ _ _ => hc⟩
        · intro hf
          exact hf.counts h hstop hno
      | some r =>
        rcases stop_some hstop with rfl | ⟨e, he, rfl⟩
        · rw [hstop] at heq
          have hbad : ¬SelectOk env a := by simp [SelectOk, heq]
          exact iff_of_false hbad fun hf => hf.defined h hstop
        · rw [hstop] at heq
          dsimp only at heq
          rw [selectFinish_fail hs hno (by omega)] at heq
          rw [fail_iff he heq]
          constructor
          · intro hb
            refine ⟨fun _ => by simp [hstop], fun hc => ⟨h, ?_, hno⟩, fun _ hn => by simp [hstop] at hn⟩
            rw [hstop, hb hc]
          · intro hf hc
            have := (hf.badf hc).2.1
            rw [hstop] at this
            cases this
            rfl

def Selected.counted : Selected → Option (Int × Nat)
  | .ret n rd wr ex _ => some (n, bits rd + bits wr + bits ex)
  | _ => none

private theorem counted_of_selectOk {n : Int} {k : Nat} (h : SelectOk env a)
    (hc : (ukSysPselect env a).counted = some (n, k)) (hn : 0 ≤ n) :
    n = k := by
  unfold SelectOk at h
  cases hr : ukSysPselect env a with
  | undefined | blocks =>
    rw [hr] at hc
    cases hc
  | ret n rd wr ex t =>
    rw [hr] at h hc
    cases hc
    exact (h.1 hn).1

/-- A descriptor that is requested for reading and writing and ready for both counts as one. -/
theorem select_counts_once : ¬SelectOk ⟨fun _ => .uk (EPOLLIN ||| EPOLLOUT), true, fun _ => true, fun _ => 0⟩
      ⟨1, some (· == 0), some (· == 0), none, none, false⟩ := by
  intro h
  have hc : (ukSysPselect ⟨fun _ => .uk (EPOLLIN ||| EPOLLOUT), true, fun _ => true, fun _ => 0⟩
      ⟨1, some (· == 0), some (· == 0), none, none, false⟩).counted = some (1, 2) := by decide +kernel
  have := counted_of_selectOk h hc (by decide)
  omega

end

def POLLIN : BitVec 16 := 0x1
def POLLOUT : BitVec 16 := 0x4
def POLLERR : BitVec 16 := 0x8
def POLLHUP : BitVec 16 := 0x10
def POLLNVAL : BitVec 16 := 0x20

structure Pollfd where
  fd : Int
  events : BitVec 16
  revents : BitVec 16
  deriving DecidableEq

/-- The loop is left for `out`, or goes on to the wait with its variables. -/
inductive Registered where
  | undefined
  | out (ret : Int) (fds : List Pollfd)
  | next (ret monitored : Nat) (ep : Epoll) (fds : List Pollfd)

def Registered.cons (p : Pollfd) : Registered → Registered
  | .undefined => .undefined
  | .out ret fds => .out ret (p :: fds)
  | .next ret monitored ep fds => .next ret monitored ep (p :: fds)

variable (env : Env)

/-- The call of `uk_sys_epoll_ctl` for an entry; the events are a `short` and so sign-extended. -/
def pollAdd (ep : Epoll) (p : Pollfd) : Option (Int × Epoll) :=
  if p.fd ≥ 0 then ukSysEpollCtlAdd env ep p.fd.toNat (p.events.signExtend 32) p.fd else some (0, ep)

def pollLoop (env : Env) : List Pollfd → Nat → Nat → Epoll → Registered
  | [], ret, monitored, ep => .next ret monitored ep []
  | p :: fds, ret, monitored, ep =>
    let monitored := if p.fd ≥ 0 then monitored + 1 else monitored
    match pollAdd env ep p with
    | none => .undefined
    | some (r, ep) =>
      if r = 0 then (pollLoop env fds ret monitored ep).cons { p with revents := 0 }
      else if r = -EBADF then (pollLoop env fds (ret + 1) monitored ep).cons { p with revents := POLLNVAL }
      else if r = -EPERM then
        let revents := (POLLIN ||| POLLOUT) &&& p.events
        (pollLoop env fds (if revents ≠ 0 then ret + 1 else ret) monitored ep).cons { p with revents := revents }
      else if r = -EEXIST then .out (-ENOSYS) (p :: fds)
      else .out r (p :: fds)

/-- The scan over the array from `pi` on: how many of the events were matched, and the entries. -/
def pollWriteout : List (Int × Events) → List Pollfd → Nat × List Pollfd
  | [], fds => (0, fds)
  | (fd, ev) :: events, fds =>
    match fds.dropWhile fun p => p.fd ≠ fd with
    | [] => (0, fds)
    | p :: ps =>
      let (n, rest) := pollWriteout events ({ p with revents := ev.setWidth 16 } :: ps)
      (n + 1, fds.takeWhile (fun p => p.fd ≠ fd) ++ rest)

inductive Polled where
  | undefined
  | blocks
  | ret (n : Int) (fds : List Pollfd)
  deriving DecidableEq

def pollFinish (timeout : Option Int) (sigmask : Bool) (ret monitored : Nat) (ep : Epoll) (fds : List Pollfd) :
    Polled :=
  let monitored := if monitored = 0 then 1 else monitored
  if ret = 0 then
    match ukSysEpollPwait2 ep monitored timeout sigmask (env.clock 0) with
    | .blocks => .blocks
    | .ret n events =>
      let (k, fds) := pollWriteout events fds
      .ret (if k = events.length then n else k) fds
  else .ret ret fds

/-- `fds` is `none` for `NULL`, the timeout is in nanoseconds, and `sigmask` says whether there is one. -/
def ukSysPpoll (fds : Option (List Pollfd)) (timeout : Option Int) (sigmask : Bool) : Polled :=
  match fds with
  | none => .ret (-EFAULT) []
  | some fds =>
    if timeout.any (· < 0) then .ret (-EINVAL) fds
    else if sigmask then .ret (-ENOSYS) fds
    else
      match ukEpollfileCreate env with
      | none => .ret (-ENOMEM) fds
      | some ep =>
        match pollLoop env fds 0 0 ep with
        | .undefined => .undefined
        | .out ret fds => .ret ret fds
        | .next ret monitored ep fds => pollFinish env timeout sigmask ret monitored ep fds

def Pollfd.req (p : Pollfd) : Nat × Events := (p.fd.toNat, p.events.signExtend 32)

variable (fds : List Pollfd)

def pollReqs : List (Nat × Events) := (fds.filter fun p => p.fd ≥ 0).map Pollfd.req

def Env.outcome (p : Pollfd) : Option Reg := if p.fd ≥ 0 then some (env.reg p.req.1 p.req.2) else none

def Reg.halts : Reg → Bool
  | .ok => false
  | .perm => false
  | .fail e => e ≠ EBADF
  | .undefined => true

def Env.halt : Option Reg := (fds.filterMap env.outcome).find? Reg.halts

def Env.answer (p : Pollfd) : BitVec 16 :=
  match env.outcome p with
  | none => 0
  | some .ok => 0
  | some .perm => (POLLIN ||| POLLOUT) &&& p.events
  | some (.fail _) => POLLNVAL
  | some .undefined => 0

def Env.answered (p : Pollfd) : Pollfd := { p with revents := env.answer p }

def Distinct : Prop := fds.Pairwise fun p q => p.fd ≥ 0 → p.fd ≠ q.fd

instance (fds : List Pollfd) : Decidable (Distinct fds) := inferInstanceAs (Decidable (List.Pairwise _ _))

variable {p : Pollfd} {timeout : Option Int} {sigmask : Bool}

section
variable {env : Env} {fds : List Pollfd} {ret monitored : Nat} {Q : List (Nat × Events)} {ep : Epoll} {e : Int}
    {r : Reg}

private theorem pollAdd_eq (h : ∀ e ∈ ep.list, (e.fd : Int) ≠ p.fd) : pollAdd env ep p =
      match env.outcome p with
      | none => some (0, ep)
      | some .ok => some (0, ep.push (env.entry p.req.1 p.req.2))
      | some .perm => some (-EPERM, ep)
      | some (.fail e) => some (-e, ep)
      | some .undefined => none := by
  unfold pollAdd outcome
  by_cases hp : p.fd ≥ 0
  · have hfd : p.fd = (p.fd.toNat : Int) := by omega
    have hnot : ∀ e ∈ ep.list, e.fd ≠ p.fd.toNat := fun e he hEq => h e he (by omega)
    rw [if_pos hp, if_pos hp]
    nth_rewrite 2 [hfd]
    rw [epollCtlAdd_eq hnot, Pollfd.req]
    cases env.reg p.fd.toNat (p.events.signExtend 32) <;> rfl
  · rw [if_neg hp, if_neg hp]

private theorem mem_epollOf (h : ∀ q ∈ Q, (q.1 : Int) ≠ p.fd) : ∀ e ∈ (env.epollOf Q).list, (e.fd : Int) ≠ p.fd := by
  intro e he
  obtain ⟨q, hq, hfd⟩ := fd_of_mem_entries he
  rw [hfd]
  exact h q hq

private theorem outcome_eq_none : env.outcome p = none ↔ ¬p.fd ≥ 0 := by
  unfold outcome
  split
  case isTrue hp => simp [hp]
  case isFalse hp => simp [hp]

private theorem outcome_eq_some : env.outcome p = some r ↔ p.fd ≥ 0 ∧ env.reg p.req.1 p.req.2 = r := by
  unfold outcome
  split
  case isTrue hp => simp [hp]
  case isFalse hp => simp [hp]

private theorem pollReqs_cons (p : Pollfd) (fds : List Pollfd) :
    pollReqs (p :: fds) = pollReqs [p] ++ pollReqs fds := by
  unfold pollReqs
  by_cases hp : p.fd ≥ 0 <;> simp [hp]

private theorem pollReqs_single (hp : p.fd ≥ 0) : pollReqs [p] = [p.req] := by simp [pollReqs, hp]

private theorem pollReqs_none (hp : ¬p.fd ≥ 0) : pollReqs [p] = [] := by simp [pollReqs, hp]

private theorem pollLoop_cons (hQ : ∀ q ∈ Q, (q.1 : Int) ≠ p.fd) (hno : (env.outcome p).any Reg.halts = false) :
    pollLoop env (p :: fds) ret monitored (env.epollOf Q) =
      (pollLoop env fds (ret + if env.answer p ≠ 0 then 1 else 0) (monitored + (pollReqs [p]).length)
        (env.epollOf (Q ++ pollReqs [p]))).cons (env.answered p) := by
  rw [pollLoop, pollAdd_eq (mem_epollOf hQ), answered, answer]
  cases ho : env.outcome p with
  | none =>
    have hp := outcome_eq_none.1 ho
    simp [hp, pollReqs_none hp]
  | some r =>
    rw [ho] at hno
    obtain ⟨hp, hreg⟩ := outcome_eq_some.1 ho
    cases r with
    | ok => simp [hp, pollReqs_single hp, epollOf_push hreg]
    | perm =>
      have hskip : env.epollOf (Q ++ [p.req]) = env.epollOf Q := epollOf_skip (by rw [hreg]; decide)
      have hne : ¬(-EPERM = 0) ∧ ¬(-EPERM = -EBADF) := by decide
      simp only [if_pos hp, if_neg hne.1, if_neg hne.2, if_true, pollReqs_single hp, hskip, length_singleton]
      by_cases h0 : (POLLIN ||| POLLOUT) &&& p.events = 0#16 <;> simp [h0]
    | fail e =>
      have hskip : env.epollOf (Q ++ [p.req]) = env.epollOf Q :=
        epollOf_skip (by rw [hreg]; exact fun h => by cases h)
      have he : e = EBADF := by
        by_contra hne
        simp [Reg.halts, hne] at hno
      have hne : ¬(-EBADF = 0) := by decide
      have hnval : POLLNVAL ≠ 0#16 := by decide
      simp [he, hp, hne, hnval, pollReqs_single hp, hskip]
    | undefined => cases hno

private theorem pollLoop_halt (hQ : ∀ q ∈ Q, (q.1 : Int) ≠ p.fd) (ho : env.outcome p = some r) (hr : r.halts = true) :
    r = .undefined ∧ pollLoop env (p :: fds) ret monitored (env.epollOf Q) = .undefined ∨
      ∃ n < 0, r ≠ .undefined ∧ pollLoop env (p :: fds) ret monitored (env.epollOf Q) = .out n (p :: fds) := by
  rw [pollLoop, pollAdd_eq (mem_epollOf hQ), ho]
  cases r with
  | ok | perm => cases hr
  | undefined => exact .inl ⟨rfl, rfl⟩
  | fail e =>
    have hne : e ≠ EBADF := of_decide_eq_true hr
    obtain ⟨hpos, hperm⟩ := fail_pos (outcome_eq_some.1 ho).2
    refine .inr ?_
    dsimp only
    rw [if_neg (by omega), if_neg (by omega), if_neg (by omega)]
    split
    next =>
      exact ⟨-ENOSYS, by decide, nofun, rfl⟩
    next =>
      exact ⟨-e, by omega, nofun, rfl⟩

private theorem apart_cons (hQ : ∀ q ∈ Q, ∀ p' ∈ p :: fds, (q.1 : Int) ≠ p'.fd) (hd : Distinct (p :: fds)) :
    ∀ q ∈ Q ++ pollReqs [p], ∀ p' ∈ fds, (q.1 : Int) ≠ p'.fd := by
  intro q hq p' hp'
  rcases mem_append.1 hq with hq | hq
  · exact hQ q hq p' (mem_cons_of_mem _ hp')
  · by_cases hp : p.fd ≥ 0
    · rw [pollReqs_single hp] at hq
      have := (pairwise_cons.1 hd).1 p' hp' hp
      rw [mem_singleton.1 hq]
      change (p.fd.toNat : Int) ≠ p'.fd
      omega
    · rw [pollReqs_none hp] at hq
      cases hq

private theorem halt_cons (p : Pollfd) (fds : List Pollfd) :
    env.halt (p :: fds) = if (env.outcome p).any Reg.halts then env.outcome p else env.halt fds := by
  unfold halt
  rw [filterMap_cons]
  cases ho : env.outcome p with
  | none => rfl
  | some r =>
    cases hr : r.halts <;> simp [hr]

private theorem pollLoop_next (hd : Distinct fds) (hQ : ∀ q ∈ Q, ∀ p ∈ fds, (q.1 : Int) ≠ p.fd)
    (hno : env.halt fds = none) :
    pollLoop env fds ret monitored (env.epollOf Q) =
      .next (ret + fds.countP fun p => env.answer p ≠ 0) (monitored + (pollReqs fds).length)
      (env.epollOf (Q ++ pollReqs fds))
        (fds.map env.answered) := by
  induction fds generalizing ret monitored Q with
  | nil =>
    rw [pollLoop, pollReqs, filter_nil, map_nil, append_nil]
    rfl
  | cons p fds ih =>
    have hQp : ∀ q ∈ Q, (q.1 : Int) ≠ p.fd := fun q hq => hQ q hq p (mem_cons_self ..)
    rw [halt_cons] at hno
    cases hh : (env.outcome p).any Reg.halts with
    | false =>
      rw [hh, if_neg Bool.false_ne_true] at hno
      rw [pollLoop_cons hQp hh, ih (pairwise_cons.1 hd).2 (apart_cons hQ hd) hno, Registered.cons, countP_cons,
        map_cons, pollReqs_cons p fds, length_append, append_assoc]
      simp only [decide_eq_true_eq, Nat.add_assoc, Nat.add_comm, Nat.add_left_comm]
    | true =>
      rw [hh, if_pos rfl] at hno
      rw [hno] at hh
      cases hh

private theorem pollLoop_out (hd : Distinct fds) (hQ : ∀ q ∈ Q, ∀ p ∈ fds, (q.1 : Int) ≠ p.fd)
    (hr : env.halt fds = some r) :
    r = .undefined ∧ pollLoop env fds ret monitored (env.epollOf Q) = .undefined ∨
      ∃ n < 0, r ≠ .undefined ∧ ∃ l, pollLoop env fds ret monitored (env.epollOf Q) = .out n l := by
  induction fds generalizing ret monitored Q with
  | nil => cases hr
  | cons p fds ih =>
    have hQp : ∀ q ∈ Q, (q.1 : Int) ≠ p.fd := fun q hq => hQ q hq p (mem_cons_self ..)
    rw [halt_cons] at hr
    cases hh : (env.outcome p).any Reg.halts with
    | false =>
      rw [hh, if_neg Bool.false_ne_true] at hr
      rw [pollLoop_cons hQp hh]
      rcases ih (pairwise_cons.1 hd).2 (apart_cons hQ hd) hr with ⟨hundef, heq⟩ | ⟨n, hn, hne, l, heq⟩
      · rw [heq]
        exact .inl ⟨hundef, rfl⟩
      · rw [heq]
        exact .inr ⟨n, hn, hne, env.answered p :: l, rfl⟩
    | true =>
      rw [hh, if_pos rfl] at hr
      rw [hr] at hh
      rcases pollLoop_halt hQp hr hh with h | ⟨n, hn, hne, heq⟩
      · exact .inl h
      · exact .inr ⟨n, hn, hne, p :: fds, heq⟩

end

/-! ### Matching the events -/

section
variable {g : Pollfd → Option Events} {fds : List Pollfd} {events : List (Int × Events)}

def Pollfd.report (g : Pollfd → Option Events) (p : Pollfd) : Pollfd :=
  match g p with
  | none => p
  | some ev => { p with revents := ev.setWidth 16 }

private theorem pollWriteout_skip (h : ∀ e ∈ events, e.1 ≠ p.fd) :
    pollWriteout events (p :: fds) = ((pollWriteout events fds).1, p :: (pollWriteout events fds).2) := by
  cases events with
  | nil => rfl
  | cons e events =>
    obtain ⟨fd, ev⟩ := e
    have hne : p.fd ≠ fd := fun heq => h (fd, ev) (mem_cons_self ..) heq.symm
    rw [pollWriteout, pollWriteout, dropWhile_cons_of_pos (by simpa using hne),
        takeWhile_cons_of_pos (by simpa using hne)]
    cases fds.dropWhile fun p => p.fd ≠ fd with
    | nil => rfl
    | cons p' ps => rfl

private theorem pollWriteout_eq (hd : Distinct fds) (hg : ∀ p ∈ fds, g p ≠ none → p.fd ≥ 0) :
    pollWriteout (fds.filterMap fun p => (g p).map fun ev => (p.fd, ev)) fds =
      ((fds.filterMap fun p => (g p).map fun ev => (p.fd, ev)).length, fds.map (Pollfd.report g)) := by
  induction fds with
  | nil => rfl
  | cons p fds ih =>
    obtain ⟨hp, hd⟩ := pairwise_cons.1 hd
    have ih := ih hd fun p' hp' => hg p' (mem_cons_of_mem _ hp')
    have hne : ∀ e ∈ fds.filterMap fun p => (g p).map fun ev => (p.fd, ev), e.1 ≠ p.fd := by
      intro e he
      obtain ⟨p', hp', hgp⟩ := mem_filterMap.1 he
      obtain ⟨ev, hev, rfl⟩ := Option.map_eq_some_iff.1 hgp
      have hnn := hg p' (mem_cons_of_mem _ hp') (by rw [hev]; exact Option.some_ne_none ev)
      intro heq
      exact hp p' hp' (by dsimp only at heq; omega) heq.symm
    rw [filterMap_cons, map_cons, Pollfd.report]
    cases hgp : g p with
    | none =>
      rw [Option.map_none]
      rw [pollWriteout_skip hne, ih]
    | some ev =>
      rw [Option.map_some]
      rw [pollWriteout, dropWhile_cons_of_neg (by simp), takeWhile_cons_of_neg (by simp)]
      dsimp only
      rw [pollWriteout_skip (p := { p with revents := ev.setWidth 16 }) hne, ih, length_cons, nil_append]

end

def Env.got (p : Pollfd) : Option Events :=
  if env.outcome p = some .ok ∧ env.pending p.req ≠ 0 then some (env.pending p.req) else none

/-- The arguments are refused or there is no memory for the epoll file. -/
def PollRefused (fds : Option (List Pollfd)) (timeout : Option Int) (sigmask : Bool) : Prop :=
  fds = none ∨ timeout.any (· < 0) = true ∨ sigmask = true ∨ env.epollfile = false

section
variable {env : Env} {fds : List Pollfd}

private theorem got_answered (p : Pollfd) : env.got (env.answered p) = env.got p := rfl

private theorem ready_append (Q R : List (Nat × Events)) : env.ready (Q ++ R) = env.ready Q ++ env.ready R :=
  filter_append ..

private theorem ready_pollReqs (fds : List Pollfd) :
    (env.ready (pollReqs fds)).map (fun q => ((q.1 : Int), env.pending q)) =
      (fds.map env.answered).filterMap fun p => (env.got p).map fun ev => (p.fd, ev) := by
  induction fds with
  | nil => rfl
  | cons p fds ih =>
    rw [pollReqs_cons, ready_append, map_append, map_cons, filterMap_cons, ← ih, got_answered, got]
    by_cases hp : p.fd ≥ 0
    · have hfd : ((p.fd.toNat : Nat) : Int) = p.fd := by omega
      rw [pollReqs_single hp, outcome, if_pos hp, ready]
      by_cases hok : env.reg p.req.1 p.req.2 = .ok ∧ env.pending p.req ≠ 0
      · have hfst : ((p.req.1 : Nat) : Int) = (env.answered p).fd := hfd
        rw [filter_cons_of_pos (by simpa using hok), if_pos (by simpa using hok), filter_nil, map_cons, hfst]
        rfl
      · rw [filter_cons_of_neg (by simpa using hok), if_neg (by simpa using hok)]
        rfl
    · have hnone : ¬((none : Option Reg) = some .ok ∧ env.pending p.req ≠ 0) := by simp
      rw [pollReqs_none hp, outcome, if_neg hp, if_neg hnone]
      rfl

private theorem ppoll_refused (h : PollRefused env (some fds) timeout sigmask) :
    ∃ n < 0, ukSysPpoll env (some fds) timeout sigmask = .ret n fds := by
  unfold ukSysPpoll
  dsimp only
  split
  · exact ⟨-EINVAL, by decide, rfl⟩
  split
  · exact ⟨-ENOSYS, by decide, rfl⟩
  · rename_i h1 h2
    have hmem : env.epollfile = false := by
      rcases h with h | h | h | h
      · cases h
      · exact absurd h h1
      · exact absurd h h2
      · exact h
    rw [ukEpollfileCreate, hmem]
    exact ⟨-ENOMEM, by decide, rfl⟩

section
variable (h : ¬PollRefused env (some fds) timeout sigmask)
include h

private theorem ppoll_run : timeout.any (· < 0) = false ∧ ukSysPpoll env (some fds) timeout sigmask =
      match pollLoop env fds 0 0 (env.epollOf []) with
      | .undefined => .undefined
      | .out ret fds => .ret ret fds
      | .next ret monitored ep fds => pollFinish env timeout false ret monitored ep fds := by
  simp only [PollRefused, not_or, Bool.not_eq_true, Bool.not_eq_false] at h
  obtain ⟨-, h1, h2, h3⟩ := h
  refine ⟨h1, ?_⟩
  rw [ukSysPpoll, h1, if_neg Bool.false_ne_true, h2, if_neg Bool.false_ne_true, ukEpollfileCreate, h3, if_pos rfl]
  rfl

private theorem ppoll_early (hd : Distinct fds) (hno : env.halt fds = none) (hearly : ∃ p ∈ fds, env.answer p ≠ 0) :
    ukSysPpoll env (some fds) timeout sigmask = .ret (fds.countP fun p => env.answer p ≠ 0 : Nat)
    (fds.map env.answered) := by
  have hpos : 0 < fds.countP fun p => env.answer p ≠ 0 := by
    obtain ⟨p, hp, hne⟩ := hearly
    exact countP_pos_iff.2 ⟨p, hp, by simpa using hne⟩
  rw [(ppoll_run h).2, pollLoop_next hd (fun _ hq => absurd hq not_mem_nil) hno]
  dsimp only
  rw [pollFinish, if_neg (by omega), Nat.zero_add]

private theorem ppoll_wait (hd : Distinct fds) (hno : env.halt fds = none) (hearly : ∀ p ∈ fds, env.answer p = 0) :
    ukSysPpoll env (some fds) timeout sigmask =
      if env.ready (pollReqs fds) = [] ∧ deadlineOf timeout (env.clock 0) = 0 then .blocks
      else .ret (env.ready (pollReqs fds)).length ((fds.map env.answered).map (Pollfd.report env.got)) := by
  obtain ⟨ht, hrun⟩ := ppoll_run h
  have hzero : (fds.countP fun p => env.answer p ≠ 0) = 0 := by
    rw [countP_eq_zero]
    intro p hp
    simp [hearly p hp]
  have hlen : (env.entries (pollReqs fds)).length ≤ if (pollReqs fds).length = 0 then 1
    else (pollReqs fds).length := by
    have hle : (env.entries (pollReqs fds)).length ≤ (pollReqs fds).length := by
      rw [entries, length_map]
      exact length_filter_le _ _
    split <;> omega
  have hpos : 0 < if (pollReqs fds).length = 0 then 1 else (pollReqs fds).length := by
    split <;> omega
  have hd' : Distinct (fds.map env.answered) := pairwise_map.2 hd
  have hgot : ∀ p ∈ fds.map env.answered, env.got p ≠ none → p.fd ≥ 0 := by
    intro p _ hne
    by_contra hp
    exact hne (if_neg fun hc => hp (outcome_eq_some.1 hc.1).1)
  have hout := pollWriteout_eq hd' hgot
  rw [← ready_pollReqs] at hout
  rw [hrun, pollLoop_next hd (fun _ hq => absurd hq not_mem_nil) hno]
  dsimp only
  rw [pollFinish, hzero, Nat.zero_add, Nat.zero_add, if_pos rfl, nil_append]
  rw [epollPwait2_eq hlen hpos ht]
  by_cases hready : env.ready (pollReqs fds) = []
  · rw [if_pos hready, idle]
    by_cases hdl : deadlineOf timeout (env.clock 0) = 0
    · rw [if_pos hdl, if_pos ⟨hready, hdl⟩]
    · rw [hready] at hout
      rw [if_neg hdl, if_neg fun hc => hdl hc.2, hready]
      rw [map_nil] at hout
      simp only [hout]
      rfl
  · rw [if_neg hready, if_neg fun hc => hready hc.1]
    simp only [hout, if_true]

end

end

/-! ### What is reported -/

def Pollable (p : Pollfd) : Prop :=
  p.fd ≥ 0 ∧ (∃ level, env.files p.fd.toNat = .uk level) ∨ p.fd ≥ 0 ∧ ∃ level, env.files p.fd.toNat = .legacy 0 level

/-- The level of the file restricted to the requested events, errors and hang-ups. -/
def wanted (p : Pollfd) : BitVec 16 :=
  (env.files p.fd.toNat).level.setWidth 16 &&& (p.events ||| POLLERR ||| POLLHUP)

structure Reported (env : Env) (p p' : Pollfd) : Prop where
  negative : p.fd < 0 → p'.revents = 0
  closed : p.fd ≥ 0 → env.files p.fd.toNat = .closed → p'.revents = POLLNVAL
  pollable : Pollable env p → p'.revents = wanted env p

def PpollOk (timeout : Option Int) (sigmask : Bool) : Prop :=
  match ukSysPpoll env (some fds) timeout sigmask with
  | .undefined => False
  | .blocks => True
  | .ret n fds' => 0 ≤ n → n = (fds'.countP fun p => p.revents ≠ 0 : Nat) ∧ List.Forall₂ (Reported env) fds fds'

/-- The entry is answered without a wait: the descriptor is not open, or its file has no epoll support and is
requested for reading or writing. -/
def AtOnce (p : Pollfd) : Prop :=
  env.outcome p = some (.fail EBADF) ∨ env.outcome p = some .perm ∧ (POLLIN ||| POLLOUT) &&& p.events ≠ 0

structure PpollFine (env : Env) (fds : List Pollfd) (timeout : Option Int) (sigmask : Bool) : Prop where
  /-- No file of the old file system with an event is registered. -/
  defined : ¬PollRefused env (some fds) timeout sigmask → env.halt fds ≠ some .undefined
  /-- With an entry that is answered at once no other file is ready. -/
  early : ¬PollRefused env (some fds) timeout sigmask → env.halt fds = none → (∃ p ∈ fds, AtOnce env p) →
    ∀ p ∈ fds, Pollable env p → wanted env p = 0
  /-- Otherwise no file has a requested event that epoll does not know, unless the call does not return. -/
  waited : ¬PollRefused env (some fds) timeout sigmask → env.halt fds = none → (∀ p ∈ fds, ¬AtOnce env p) →
    (∃ p ∈ fds, env.got p ≠ none) ∨ deadlineOf timeout (env.clock 0) ≠ 0 →
    ∀ p ∈ fds, Pollable env p →
      (env.files p.fd.toNat).level.setWidth 16 &&& p.events &&& ~~~(EPOLL_EVENTS.setWidth 16) = 0

section
variable {env : Env} {fds : List Pollfd} {level : Events} {ev : BitVec 16}

section
variable (h : env.halt fds = none)
include h

private theorem not_halts_of_halt (hp : p ∈ fds) {r : Reg} (hr : env.outcome p = some r) : r.halts = false := by
  rw [halt, List.find?_eq_none] at h
  simpa using h r (mem_filterMap.2 ⟨p, hp, hr⟩)

private theorem answer_ne_zero (hp : p ∈ fds) : env.answer p ≠ 0 ↔ AtOnce env p := by
  unfold answer AtOnce
  cases ho : env.outcome p with
  | none => simp
  | some r =>
    have hr := not_halts_of_halt h hp ho
    cases r with
    | ok | perm | undefined => simp
    | fail e =>
      have he : e = EBADF := by simpa [Reg.halts] using hr
      have hne : POLLNVAL ≠ 0#16 := by decide
      simp [he, hne]

private theorem outcome_of_pollable (hp : p ∈ fds) (hpoll : Pollable env p) : env.outcome p = some .ok := by
  have hnn : p.fd ≥ 0 := by
    rcases hpoll with h | h <;> exact h.1
  have ho : env.outcome p = some (env.reg p.req.1 p.req.2) := if_pos hnn
  have hr := not_halts_of_halt h hp ho
  rw [ho]
  unfold reg at hr ⊢
  have hreq : p.req.1 = p.fd.toNat := rfl
  rw [hreq] at hr ⊢
  rcases hpoll with ⟨-, level, hf⟩ | ⟨-, level, hf⟩
  · rw [hf] at hr ⊢
    dsimp only at hr ⊢
    split at hr
    · rename_i hm
      rw [if_pos hm]
    · cases hr
  · rw [hf] at hr ⊢
    dsimp only at hr ⊢
    split at hr
    · rename_i hm
      rw [if_pos rfl] at hr
      rw [if_pos hm, if_pos rfl]
      split at hr
      · rename_i h0
        rw [if_pos h0]
      · cases hr
    · cases hr

end

private theorem outcome_of_closed (hp : p.fd ≥ 0) (hf : env.files p.fd.toNat = .closed) :
    env.outcome p = some (.fail EBADF) := by
  have hreq : p.req.1 = p.fd.toNat := rfl
  rw [outcome, if_pos hp, reg, hreq, hf]

private theorem events2mask_getLsbD (ev : Events) {i : Nat} (hi : 16 ≤ i) : (events2mask ev).getLsbD i = false := by
  have hall : EPOLL_EVENTS.getLsbD i = false ∧ UKFD_POLL_ALWAYS.getLsbD i = false := by
    by_cases hlt : i < 32
    · exact (by decide : ∀ i : Fin 32, 16 ≤ i.1 → EPOLL_EVENTS.getLsbD i.1 = false ∧
          UKFD_POLL_ALWAYS.getLsbD i.1 = false) ⟨i, hlt⟩ hi
    · exact ⟨BitVec.getLsbD_of_ge _ _ (by omega), BitVec.getLsbD_of_ge _ _ (by omega)⟩
  rw [events2mask, BitVec.getLsbD_or, BitVec.getLsbD_and, hall.1, hall.2, Bool.and_false, Bool.or_false]

private theorem setWidth_pending_ne_zero (h : level &&& events2mask (ev.signExtend 32) ≠ 0) :
    (level &&& events2mask (ev.signExtend 32)).setWidth 16 ≠ 0 := by
  intro h0
  refine h (BitVec.eq_of_getLsbD_eq fun i hi => ?_)
  by_cases hlt : i < 16
  · have := congrArg (fun x => BitVec.getLsbD x i) h0
    simpa [hlt] using this
  · rw [BitVec.getLsbD_and, events2mask_getLsbD _ (by omega), Bool.and_false]
    exact (BitVec.getLsbD_zero).symm

private theorem setWidth_events2mask (ev : BitVec 16) :
    (events2mask (ev.signExtend 32)).setWidth 16 = ev &&& EPOLL_EVENTS.setWidth 16 ||| (POLLERR ||| POLLHUP) := by
  have hev : (ev.signExtend 32).setWidth 16 = ev := by
    refine BitVec.eq_of_getLsbD_eq fun i hi => ?_
    have h32 : i < 32 := by omega
    rw [BitVec.getLsbD_setWidth, BitVec.getLsbD_signExtend]
    simp [hi, h32]
  rw [events2mask, BitVec.setWidth_or, BitVec.setWidth_and, hev]
  rfl

theorem and_or_eq_iff {l e v a : BitVec 16} (ha : a &&& v = a) : l &&& (e &&& v ||| a) = l &&& (e ||| a) ↔
    l &&& e &&& ~~~v = 0#16 := by
  have hbit : ∀ i, (a.getLsbD i && v.getLsbD i) = a.getLsbD i := by
    intro i
    rw [← BitVec.getLsbD_and, ha]
  simp only [BitVec.eq_of_getLsbD_eq_iff, BitVec.getLsbD_and, BitVec.getLsbD_or, BitVec.getLsbD_not,
      BitVec.getLsbD_zero]
  refine forall₂_congr fun i hi => ?_
  have ha' := hbit i
  rw [decide_eq_true hi]
  revert ha'
  cases l.getLsbD i <;> cases e.getLsbD i <;> cases v.getLsbD i <;> cases a.getLsbD i <;> decide

private theorem pending_eq_wanted : (env.pending p.req).setWidth 16 = wanted env p ↔
      (env.files p.fd.toNat).level.setWidth 16 &&& p.events &&& ~~~(EPOLL_EVENTS.setWidth 16) = 0 := by
  have hreq : env.pending p.req = (env.files p.fd.toNat).level &&& events2mask (p.events.signExtend 32) := rfl
  rw [hreq, wanted, BitVec.setWidth_and, setWidth_events2mask, BitVec.or_assoc]
  exact and_or_eq_iff (by decide)

/-! #### Answered at once -/

private theorem reported_answered (h : env.halt fds = none) (hp : p ∈ fds) :
    Reported env p (env.answered p) ↔ (Pollable env p → wanted env p = 0) := by
  constructor
  · intro hr hpoll
    have hans : env.answer p = 0 := by rw [answer, outcome_of_pollable h hp hpoll]
    rw [← hr.pollable hpoll]
    exact hans
  · intro hw
    refine ⟨fun hneg => ?_, fun hnn hf => ?_, fun hpoll => ?_⟩
    · have ho : env.outcome p = none := outcome_eq_none.2 (by omega)
      rw [answered, answer, ho]
    · rw [answered, answer, outcome_of_closed hnn hf]
    · rw [answered, answer, outcome_of_pollable h hp hpoll, hw hpoll]

private theorem reported_report (h : env.halt fds = none) (hp : p ∈ fds) :
    Reported env p ((env.answered p).report env.got) ↔
      (Pollable env p → (env.files p.fd.toNat).level.setWidth 16 &&& p.events &&& ~~~(EPOLL_EVENTS.setWidth 16) =
        0) := by
  have hrev : Pollable env p → ((env.answered p).report env.got).revents = (env.pending p.req).setWidth 16 := by
    intro hpoll
    have ho := outcome_of_pollable h hp hpoll
    rw [Pollfd.report, got_answered, got]
    by_cases h0 : env.pending p.req = 0
    · rw [if_neg fun hc => hc.2 h0, h0]
      change env.answer p = _
      rw [answer, ho]
      rfl
    · rw [if_pos ⟨ho, h0⟩]
  have hother : env.outcome p ≠ some .ok → (env.answered p).report env.got = env.answered p := by
    intro hne
    rw [Pollfd.report, got_answered, got, if_neg fun hc => hne hc.1]
  constructor
  · intro hr hpoll
    rw [← pending_eq_wanted, ← hrev hpoll]
    exact hr.pollable hpoll
  · intro hw
    refine ⟨fun hneg => ?_, fun hnn hf => ?_, fun hpoll => ?_⟩
    · have ho : env.outcome p = none := outcome_eq_none.2 (by omega)
      rw [hother (by rw [ho]; exact nofun), answered, answer, ho]
    · have ho := outcome_of_closed hnn hf
      rw [hother (by rw [ho]; exact nofun), answered, answer, ho]
    · rw [hrev hpoll]
      exact pending_eq_wanted.2 (hw hpoll)

private theorem forall₂_map (f : Pollfd → Pollfd) : List.Forall₂ (Reported env) fds (fds.map f) ↔
    ∀ p ∈ fds, Reported env p (f p) := by
  induction fds with
  | nil => simp
  | cons p fds ih => simp [ih]

private theorem revents_report_ne_zero (h0 : env.answer p = 0) : ((env.answered p).report env.got).revents ≠ 0 ↔
    env.got p ≠ none := by
  rw [Pollfd.report, got_answered]
  cases hg : env.got p with
  | none => simp [answered, h0]
  | some ev =>
    rw [got] at hg
    split at hg
    case isTrue hc =>
      cases hg
      exact iff_of_true (setWidth_pending_ne_zero hc.2) (Option.some_ne_none _)
    case isFalse => cases hg

private theorem ready_length (h0 : ∀ p ∈ fds, env.answer p = 0) :
    (env.ready (pollReqs fds)).length = ((fds.map env.answered).map (Pollfd.report env.got)).countP
    fun p => p.revents ≠ 0 := by
  rw [← length_map fun q => ((q.1 : Int), env.pending q), ready_pollReqs]
  induction fds with
  | nil => rfl
  | cons p fds ih =>
    have hp := revents_report_ne_zero (h0 p (mem_cons_self ..))
    have ih := ih fun p' hp' => h0 p' (mem_cons_of_mem _ hp')
    rw [map_cons, map_cons, filterMap_cons, countP_cons, ← ih, got_answered]
    cases hg : env.got p with
    | none =>
      rw [hg] at hp
      have : ((env.answered p).report env.got).revents = 0#16 := by simpa using hp
      simp [this]
    | some ev =>
      rw [hg] at hp
      have : ((env.answered p).report env.got).revents ≠ 0#16 := hp.2 (Option.some_ne_none ev)
      simp [this]

/-- For entries with distinct descriptors the promise is kept exactly under the condition. -/
theorem ppoll_reports_iff (hd : Distinct fds) : PpollOk env fds timeout sigmask ↔
    PpollFine env fds timeout sigmask := by
  unfold PpollOk
  by_cases h : PollRefused env (some fds) timeout sigmask
  · obtain ⟨n, hn, heq⟩ := ppoll_refused h
    rw [heq]
    refine iff_of_true (fun hnn => ?_) ⟨fun hc => absurd h hc, fun hc => absurd h hc, fun hc => absurd h hc⟩
    omega
  · cases hh : env.halt fds with
    | some r =>
      have hnil : ∀ q ∈ ([] : List (Nat × Events)), ∀ p ∈ fds, (q.1 : Int) ≠ p.fd := fun _ hq => absurd hq not_mem_nil
      rw [(ppoll_run h).2]
      rcases pollLoop_out hd hnil hh with ⟨rfl, heq⟩ | ⟨n, hn, hne, l, heq⟩
      · rw [heq]
        exact iff_of_false id fun hf => hf.defined h hh
      · rw [heq]
        refine iff_of_true (fun hnn => ?_) ⟨fun _ hc => ?_, fun _ hc => ?_, fun _ hc => ?_⟩
        · omega
        · rw [hh] at hc
          exact hne (Option.some.inj hc)
        · rw [hh] at hc
          cases hc
        · rw [hh] at hc
          cases hc
    | none =>
      by_cases hearly : ∃ p ∈ fds, env.answer p ≠ 0
      · have hatonce : ∃ p ∈ fds, AtOnce env p := by
          obtain ⟨p, hp, hne⟩ := hearly
          exact ⟨p, hp, (answer_ne_zero hh hp).1 hne⟩
        rw [ppoll_early h hd hh hearly]
        dsimp only
        rw [forall₂_map, countP_map]
        constructor
        · intro hok
          obtain ⟨-, hrep⟩ := hok (Int.natCast_nonneg _)
          refine ⟨fun _ => by rw [hh]; exact nofun, fun _ _ _ p hp => (reported_answered hh hp).1 (hrep p hp),
              fun _ _ hno => ?_⟩
          obtain ⟨p, hp, hat⟩ := hatonce
          exact absurd hat (hno p hp)
        · intro hf _
          exact ⟨rfl, fun p hp => (reported_answered hh hp).2 (hf.early h hh hatonce p hp)⟩
      · have h0 : ∀ p ∈ fds, env.answer p = 0 := by
          intro p hp
          by_contra hne
          exact hearly ⟨p, hp, hne⟩
        have hno : ∀ p ∈ fds, ¬AtOnce env p := fun p hp hat => (answer_ne_zero hh hp).2 hat (h0 p hp)
        have hready : env.ready (pollReqs fds) = [] ↔ ∀ p ∈ fds, env.got p = none := by
          rw [← length_eq_zero_iff, ready_length h0, countP_eq_zero, map_map, forall_mem_map]
          refine forall₂_congr fun p hp => ?_
          rw [Bool.not_eq_true, decide_eq_false_iff_not, not_not, ← not_iff_not]
          exact revents_report_ne_zero (h0 p hp)
        rw [ppoll_wait h hd hh h0]
        by_cases hblock : env.ready (pollReqs fds) = [] ∧ deadlineOf timeout (env.clock 0) = 0
        · rw [if_pos hblock]
          refine iff_of_true trivial ⟨fun _ => by rw [hh]; exact nofun, fun _ _ hat => ?_, fun _ _ _ hret => ?_⟩
          · obtain ⟨p, hp, hat⟩ := hat
            exact absurd hat (hno p hp)
          · rcases hret with ⟨p, hp, hgot⟩ | hdl
            · exact absurd (hready.1 hblock.1 p hp) hgot
            · exact absurd hblock.2 hdl
        · have hret : (∃ p ∈ fds, env.got p ≠ none) ∨ deadlineOf timeout (env.clock 0) ≠ 0 := by
            by_contra hc
            push Not at hc
            exact hblock ⟨hready.2 hc.1, hc.2⟩
          rw [if_neg hblock]
          dsimp only
          rw [ready_length h0, map_map, forall₂_map]
          constructor
          · intro hok
            obtain ⟨-, hrep⟩ := hok (Int.natCast_nonneg _)
            refine ⟨fun _ => by rw [hh]; exact nofun, fun _ _ hat => ?_,
                fun _ _ _ _ p hp => (reported_report hh hp).1 (hrep p hp)⟩
            obtain ⟨p, hp, hat⟩ := hat
            exact absurd hat (hno p hp)
          · intro hf _
            exact ⟨rfl, fun p hp => (reported_report hh hp).2 (hf.waited h hh hno hret p hp)⟩

/-- A file that is ready and an entry that is left out. -/
theorem ppoll_reports_iff_two : Distinct [⟨3, POLLIN, 0⟩, ⟨-1, POLLIN, 0⟩] ∧
      PpollOk ⟨fun _ => .uk EPOLLIN, true, fun _ => true, fun _ => 0⟩
      [⟨3, POLLIN, 0⟩, ⟨-1, POLLIN, 0⟩] none false := by
  refine ⟨by decide, (ppoll_reports_iff (by decide)).2
      ⟨fun _ => by decide, fun _ _ hat p hp _ => ?_, fun _ _ _ _ p hp _ => ?_⟩⟩
  · obtain ⟨q, hq, hat⟩ := hat
    simp only [mem_cons, not_mem_nil, or_false] at hq
    rcases hq with rfl | rfl
    · exact absurd hat (by unfold AtOnce; decide)
    · exact absurd hat (by unfold AtOnce; decide)
  · simp only [mem_cons, not_mem_nil, or_false] at hp
    rcases hp with rfl | rfl <;> decide

/-- A descriptor that is not open hides the event of another. -/
theorem ppoll_hides : Distinct [⟨0, POLLIN, 0⟩, ⟨1, POLLIN, 0⟩] ∧
      ¬PpollOk ⟨fun fd => if fd = 1 then .uk EPOLLIN else .closed, true, fun _ => true, fun _ => 0⟩
        [⟨0, POLLIN, 0⟩, ⟨1, POLLIN, 0⟩] none false := by
  refine ⟨by decide, fun h => ?_⟩
  obtain ⟨-, hrep⟩ := h (by decide)
  cases hrep with
  | cons _ hrep =>
    cases hrep with
    | cons hrep _ => exact absurd (hrep.pollable (.inl ⟨by decide, EPOLLIN, rfl⟩)) (by decide)

end

end Unikraft.Poll
