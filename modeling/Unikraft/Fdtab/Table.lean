import Mathlib.Data.Nat.Count
import Unikraft.Fdtab.Fmap
import Unikraft.Ukfile.Finalizers

/-!
# Descriptor tables

A slot of a table is an open file description and the close-on-exec flag, kept in the lowest bit of the pointer. Each
slot holds one reference of its description; `n` is `UK_FDTAB_SIZE`. `none` is a failed assertion or a use after free.
`Rep` says that a map and the counters represent a `Tab`, where `ext` counts the references held outside of the table.
-/

namespace Unikraft.Fdtab

open Function (update update_eq_self update_idem update_of_ne update_self)
open Ukfile

inductive Errno where
  | EBADF | EINVAL | ENFILE
  deriving DecidableEq

def O_CLOEXEC : BitVec 32 := 0x80000
def UK_FDTAB_CLOEXEC : BitVec 32 := 1
def FLAG_MASK : BitVec 64 := 1

structure Fdval where
  p : BitVec 64
  flags : BitVec 32
  deriving DecidableEq

def fdtabEncode (f : BitVec 64) (flags : BitVec 32) : Option (BitVec 64) :=
  if f &&& FLAG_MASK = 0 then some (f ||| flags.signExtend 64) else none

def fdtabDecode (p : BitVec 64) : Fdval := ⟨p &&& ~~~FLAG_MASK, (p &&& FLAG_MASK).setWidth 32⟩

/-- The open file descriptions: which are allocated, and their counters. -/
structure Files where
  alive : BitVec 64 → Bool
  refcnt : BitVec 64 → BitVec 32

def fileAcq (fs : Files) (p : BitVec 64) : Option Files :=
  if fs.alive p then some { fs with refcnt := update fs.refcnt p (ukRefcountAcquire (fs.refcnt p)) } else none

def fileRel (fs : Files) (p : BitVec 64) : Option Files :=
  if fs.alive p then
    let r := ukRefcountRelease (fs.refcnt p)
    some ⟨if r.2 then update fs.alive p false else fs.alive, update fs.refcnt p r.1⟩
  else none

section
variable (n : Nat) (m : UkFmap) (fs : Files)

def ukFdtabOpenDesc (of : BitVec 64) (mode : BitVec 32) : Option (Except Errno Int × UkFmap) := do
  let entry ← fdtabEncode of (if mode &&& O_CLOEXEC ≠ 0 then UK_FDTAB_CLOEXEC else 0)
  let (fd, m) ← ukFmapPut m entry 0
  if fd ≥ n then some (.error .ENFILE, m) else some (.ok fd, m)

def setCloexec (flags new : BitVec 32) : BitVec 32 :=
  (flags &&& ~~~UK_FDTAB_CLOEXEC) ||| (if new ≠ 0 then UK_FDTAB_CLOEXEC else 0)

variable (fd : Int)

def ukFdtabSetflags (flags : BitVec 32) : Option (Except Errno Int × UkFmap) :=
  if flags &&& ~~~O_CLOEXEC ≠ 0 then some (.error .EINVAL, m)
  else do
    let (p, m) ← ukFmapCriticalTake m fd
    if p = 0 then some (.error .EBADF, m)
    else
      let v := fdtabDecode p
      let newp ← fdtabEncode v.p (setCloexec v.flags flags)
      let (_, m) ← ukFmapCriticalPut m fd newp
      some (.ok 0, m)

def ukFdtabGetflags : Option (Except Errno Int) := do
  let p ← ukFmapLookup m fd
  if p = 0 then some (.error .EBADF)
  else some (.ok (if (fdtabDecode p).flags &&& UK_FDTAB_CLOEXEC ≠ 0 then O_CLOEXEC.toNat else 0))

def fdtabGet : Option (Fdval × UkFmap × Files) :=
  if fd ≥ 0 then do
    let (p, m) ← ukFmapCriticalTake m fd
    if p ≠ 0 then
      let v := fdtabDecode p
      let fs ← fileAcq fs v.p
      let (_, m) ← ukFmapCriticalPut m fd p
      some (v, m, fs)
    else some (⟨0, 0⟩, m, fs)
  else some (⟨0, 0⟩, m, fs)

def ukFdtabGet : Option (BitVec 64 × UkFmap × Files) := do
  let (v, m, fs) ← fdtabGet m fs fd
  some (v.p, m, fs)

def cleanupSlot (all : Bool) (s : UkFmap × Files) (i : Nat) : Option (UkFmap × Files) := do
  let p ← ukFmapLookup s.1 i
  if p ≠ 0 then
    let v := fdtabDecode p
    if all ∨ v.flags &&& UK_FDTAB_CLOEXEC ≠ 0 then
      let (pp, m) ← ukFmapTake s.1 i
      if p = pp then
        let fs ← fileRel s.2 v.p
        some (m, fs)
      else none
    else some s
  else some s

def fdtabCleanup (all : Bool) : Option (UkFmap × Files) := (List.range n).foldlM (cleanupSlot all) (m, fs)

def duplicateSlot (s : UkFmap × Files × UkFmap) (i : Nat) : Option (UkFmap × Files × UkFmap) := do
  let (v, m, fs) ← fdtabGet s.1 s.2.1 i
  let entry ← if v.p ≠ 0 then fdtabEncode v.p v.flags else some 0
  some (m, fs, ukFmapSet s.2.2 i entry)

def fdtabDuplicate (bitmap : Words) (map : Nat → BitVec 64) : Option (UkFmap × Files × UkFmap) :=
  (List.range n).foldlM duplicateSlot (m, fs, ⟨⟨bitmap, n⟩, map⟩)

def ukSysClose : Option (Except Errno Int × UkFmap × Files) := do
  let (p, m) ← ukFmapTake m fd
  if p = 0 then some (.error .EBADF, m, fs)
  else
    let fs ← fileRel fs (fdtabDecode p).p
    some (.ok 0, m, fs)

def ukSysDup3 (oldfd newfd : Int) (flags : BitVec 32) : Option (Except Errno Int × UkFmap × Files) :=
  if oldfd = newfd then some (.error .EINVAL, m, fs)
  else if oldfd < 0 ∨ oldfd ≥ n ∨ newfd < 0 ∨ newfd ≥ n then some (.error .EBADF, m, fs)
  else if flags &&& ~~~O_CLOEXEC ≠ 0 then some (.error .EINVAL, m, fs)
  else do
    let (dup, m, fs) ← fdtabGet m fs oldfd
    if dup.p = 0 then some (.error .EBADF, m, fs)
    else
      let newent ← fdtabEncode dup.p (setCloexec dup.flags flags)
      let (r, prev, m) ← ukFmapXchg m newfd newent
      if r ≠ 0 then none
      else if prev.getD 0 ≠ 0 then
        let fs ← fileRel fs (fdtabDecode (prev.getD 0)).p
        some (.ok newfd, m, fs)
      else some (.ok newfd, m, fs)

def ukSysDup2 (oldfd newfd : Int) : Option (Except Errno Int × UkFmap × Files) :=
  if oldfd = newfd then do
    let p ← ukFmapLookup m oldfd
    if p ≠ 0 then some (.ok newfd, m, fs) else some (.error .EBADF, m, fs)
  else ukSysDup3 n m fs oldfd newfd 0

def ukSysDupMin (oldfd : Int) (min flags : BitVec 32) : Option (Except Errno Int × UkFmap × Files) :=
  if oldfd < 0 then some (.error .EBADF, m, fs)
  else if flags &&& ~~~O_CLOEXEC ≠ 0 then some (.error .EINVAL, m, fs)
  else do
    let (dup, m, fs) ← fdtabGet m fs oldfd
    if dup.p = 0 then some (.error .EBADF, m, fs)
    else
      let newent ← fdtabEncode dup.p (setCloexec dup.flags flags)
      let (fd, m) ← ukFmapPut m newent min
      if fd ≥ n then
        let fs ← fileRel fs dup.p
        some (.error .ENFILE, m, fs)
      else some (.ok fd, m, fs)

def ukSysDup (oldfd : Int) : Option (Except Errno Int × UkFmap × Files) := ukSysDupMin n m fs oldfd 0 0

end

/-! ### What a table means -/

/-- An open file description and the close-on-exec flag, for each descriptor that is open. -/
abbrev Tab := Nat → Option (BitVec 64 × Bool)

def Tab.at (tab : Tab) (fd : Int) : Option (BitVec 64 × Bool) := if 0 ≤ fd then tab fd.toNat else none

def Tab.slots (n : Nat) (tab : Tab) (p : BitVec 64) : Nat := Nat.count (fun i => (tab i).map Prod.fst = some p) n

def Tab.cleaned (tab : Tab) (all : Bool) : Tab := fun i => (tab i).filter fun s => !(all || s.2)

/-- Slots are below `n` and hold pointers that are aligned and not null. -/
def Tab.Ok (n : Nat) (tab : Tab) : Prop := ∀ i p c, tab i = some (p, c) → i < n ∧ p ≠ 0 ∧ p &&& FLAG_MASK = 0

structure Tab.Lowest (n : Nat) (tab : Tab) (min : Int) (i : Nat) : Prop where
  lt : i < n
  le : min ≤ i
  free : tab i = none
  lowest : ∀ j < i, min ≤ j → tab j ≠ none

def slotEntry : Option (BitVec 64 × Bool) → BitVec 64
  | none => 0
  | some (p, c) => p ||| if c then 1 else 0

/-- The counters agree with `k`, and a description is allocated as long as there is a reference. -/
structure Files.Counts (fs : Files) (k : BitVec 64 → Nat) : Prop where
  alive : ∀ p, fs.alive p = decide (0 < k p)
  refcnt : ∀ p, 0 < k p → (fs.refcnt p).toNat = k p

structure Rep (n : Nat) (m : UkFmap) (fs : Files) (tab : Tab) (ext : BitVec 64 → Nat) : Prop where
  map : m.Is n fun i => slotEntry (tab i)
  ok : tab.Ok n
  counts : fs.Counts fun p => tab.slots n p + ext p

def bump (k : BitVec 64 → Nat) (p : BitVec 64) : BitVec 64 → Nat := update k p (k p + 1)

def drop (k : BitVec 64 → Nat) (p : BitVec 64) : BitVec 64 → Nat := update k p (k p - 1)

variable {p : BitVec 64} {c : Bool} {flags : BitVec 32} {n i : Nat} {tab : Tab} {k ext : BitVec 64 → Nat} {fs : Files}

section
variable {j : Nat}

private theorem ext_low {x y : BitVec 64} (h0 : x.getLsbD 0 = y.getLsbD 0)
    (h : ∀ j < 64, j ≠ 0 → x.getLsbD j = y.getLsbD j) :
    x = y := by
  refine BitVec.eq_of_getLsbD_eq fun j hj => ?_
  by_cases hj0 : j = 0
  · rw [hj0, h0]
  · exact h j hj hj0

private theorem one_getLsbD : (1 : BitVec 64).getLsbD j = decide (j = 0) :=
  BitVec.getLsbD_one.trans (by simp)

theorem aligned_iff : p &&& FLAG_MASK = 0 ↔ p.getLsbD 0 = false := by
  unfold FLAG_MASK
  constructor
  · intro h
    have := congrArg (fun x => x.getLsbD 0) h
    simpa using this
  · intro h
    refine ext_low ?_ fun j hj hj0 => ?_
    · rw [BitVec.getLsbD_and, h]
      exact BitVec.getLsbD_zero.symm
    · rw [BitVec.getLsbD_and, one_getLsbD, decide_eq_false hj0, Bool.and_false]
      exact BitVec.getLsbD_zero.symm

def flagOf (c : Bool) : BitVec 32 := if c then UK_FDTAB_CLOEXEC else 0

private theorem encode_eq (hp : p &&& FLAG_MASK = 0) : fdtabEncode p (flagOf c) = some (slotEntry (some (p, c))) := by
  unfold fdtabEncode slotEntry
  rw [if_pos hp]
  cases c <;> rfl

private theorem flagBit_getLsbD : (if c then 1 else 0 : BitVec 64).getLsbD j = (c && decide (j = 0)) := by
  cases c with
  | false => exact BitVec.getLsbD_zero
  | true => exact one_getLsbD.trans (Bool.true_and _).symm

/-- `fdtab_decode` gives back the pointer and the flag that were packed into an entry. -/
theorem decode_eq (hp : p &&& FLAG_MASK = 0) : fdtabDecode (slotEntry (some (p, c))) = ⟨p, flagOf c⟩ := by
  have h0 := aligned_iff.1 hp
  have hp' : (p ||| if c then 1 else 0) &&& ~~~FLAG_MASK = p := by
    refine ext_low ?_ fun j hj hj0 => ?_
    · rw [BitVec.getLsbD_and, BitVec.getLsbD_not, h0]
      unfold FLAG_MASK
      rw [one_getLsbD, decide_eq_true rfl, Bool.not_true, Bool.and_false, Bool.and_false]
    · rw [BitVec.getLsbD_and, BitVec.getLsbD_not, BitVec.getLsbD_or, flagBit_getLsbD]
      unfold FLAG_MASK
      rw [one_getLsbD, decide_eq_false hj0, decide_eq_true hj]
      simp
  have hc : (p ||| if c then 1 else 0) &&& FLAG_MASK = if c then 1 else 0 := by
    refine ext_low ?_ fun j hj hj0 => ?_
    · rw [BitVec.getLsbD_and, BitVec.getLsbD_or, h0, Bool.false_or]
      unfold FLAG_MASK
      rw [one_getLsbD, decide_eq_true rfl, Bool.and_true]
    · rw [BitVec.getLsbD_and, flagBit_getLsbD]
      unfold FLAG_MASK
      rw [one_getLsbD, decide_eq_false hj0, Bool.and_false, Bool.and_false]
  unfold fdtabDecode slotEntry
  rw [hp', hc]
  cases c <;> rfl

theorem entry_ne_zero (hp : p ≠ 0) : slotEntry (some (p, c)) ≠ 0 := by
  intro h
  apply hp
  exact (BitVec.or_eq_zero_iff.1 h).1

theorem flagOf_and : flagOf c &&& UK_FDTAB_CLOEXEC ≠ 0 ↔ c = true := by
  cases c <;> decide

private theorem setCloexec_flagOf : setCloexec (flagOf c) flags = flagOf (decide (flags ≠ 0)) := by
  unfold setCloexec
  by_cases h : flags = 0
  · rw [if_neg (not_not.2 h), decide_eq_false (not_not.2 h)]
    cases c <;> decide
  · rw [if_pos h, decide_eq_true h]
    cases c <;> decide

end

section
variable {q : BitVec 64} {P Q : Nat → Prop}

private theorem count_update [DecidablePred P] [DecidablePred Q] (hi : i < n) (h : ∀ j ≠ i, P j ↔ Q j) :
    Nat.count P n + (if Q i then 1 else 0) = Nat.count Q n + if P i then 1 else 0 := by
  induction n with
  | zero => omega
  | succ n ih =>
    rw [Nat.count_succ, Nat.count_succ]
    by_cases hin : i = n
    · subst hin
      have hcount : Nat.count P i = Nat.count Q i := by
        refine le_antisymm (Nat.count_mono_left fun j hj hP => ?_) (Nat.count_mono_left fun j hj hQ => ?_)
        · exact (h j (by omega)).1 hP
        · exact (h j (by omega)).2 hQ
      omega
    · have hn : (if P n then 1 else 0) = if Q n then 1 else 0 := if_congr (h n (Ne.symm hin)) rfl rfl
      omega

theorem bump_self : bump k p p = k p + 1 := update_self ..

theorem bump_of_ne (h : q ≠ p) : bump k p q = k q := update_of_ne h ..

theorem bump_drop (h : 0 < k p) : bump (drop k p) p = k := by
  unfold drop bump
  rw [update_self, update_idem, Nat.sub_add_cancel h, update_eq_self]

private theorem bump_add_left : (fun q => bump k p q + ext q) = bump (fun q => k q + ext q) p := by
  funext q
  by_cases h : q = p
  · rw [h, bump_self, bump_self]
    omega
  · rw [bump_of_ne h, bump_of_ne h]

theorem bump_add_right : (fun q => k q + bump ext p q) = bump (fun q => k q + ext q) p := by
  funext q
  by_cases h : q = p
  · rw [h, bump_self, bump_self]
    omega
  · rw [bump_of_ne h, bump_of_ne h]

theorem drop_add_right (h : 0 < ext p) : (fun q => k q + drop ext p q) = drop (fun q => k q + ext q) p := by
  funext q
  unfold drop
  by_cases hq : q = p
  · rw [hq, update_self, update_self]
    dsimp only
    omega
  · rw [update_of_ne hq, update_of_ne hq]

private theorem slots_put (hi : i < n) (h : tab i = none) :
    Tab.slots n (update tab i (some (p, c))) = bump (tab.slots n) p := by
  funext q
  have hcount := count_update (P := fun j => (update tab i (some (p, c)) j).map Prod.fst = some q)
    hi fun j hj => by rw [update_of_ne hj]
  rw [update_self, h, Option.map_some] at hcount
  by_cases hq : q = p
  · rw [hq, if_pos rfl] at hcount
    rw [hq, bump_self]
    exact hcount
  · rw [if_neg (fun heq => hq (Option.some.inj heq).symm)] at hcount
    rw [bump_of_ne hq]
    exact hcount

private theorem slots_clear (hi : i < n) (h : tab i = some (p, c)) :
    tab.slots n = bump (Tab.slots n (update tab i none)) p := by
  rw [← slots_put hi (update_self ..), update_idem, ← h, update_eq_self]

private theorem slots_replace (hi : i < n) :
    Tab.slots n (update tab i (some (q, c))) = bump (Tab.slots n (update tab i none)) q := by
  rw [← slots_put hi (update_self ..), update_idem]

private theorem slots_pos (hi : i < n) (h : tab i = some (p, c)) : 0 < tab.slots n p := by
  rw [slots_clear hi h, bump_self]
  omega

end

/-- A description that is referenced gets one more reference. -/
theorem fileAcq_spec (h : fs.Counts k) (h0 : 0 < k p) (hlt : k p < 2 ^ 32 - 1) :
    ∃ fs', fileAcq fs p = some fs' ∧ fs'.Counts (bump k p) := by
  refine ⟨_, if_pos ((h.alive p).trans (decide_eq_true h0)), fun q => ?_, fun q hq => ?_⟩
  · by_cases hqp : q = p
    · rw [hqp, bump_self, h.alive, decide_eq_true h0, decide_eq_true (by omega)]
    · rw [bump_of_ne hqp, h.alive]
  · dsimp only
    by_cases hqp : q = p
    · rw [hqp, update_self, bump_self, acquire_toNat (by rw [h.refcnt p h0]; exact hlt),
        h.refcnt p h0]
    · rw [bump_of_ne hqp] at hq ⊢
      rw [update_of_ne hqp, h.refcnt q hq]

/-- A reference is released, and the description is freed with its last one. -/
theorem fileRel_spec (h : fs.Counts (bump k p)) : ∃ fs', fileRel fs p = some fs' ∧ fs'.Counts k := by
  have hpos : 0 < bump k p p := by
    rw [bump_self]
    omega
  have hcount : (fs.refcnt p).toNat = k p + 1 := (h.refcnt p hpos).trans bump_self
  obtain ⟨h1, h2⟩ := refcountRelease_spec hcount
  refine ⟨_, if_pos ((h.alive p).trans (decide_eq_true hpos)), fun q => ?_, fun q hq => ?_⟩
  · dsimp only
    rw [h2]
    by_cases hqp : q = p
    · subst hqp
      by_cases h0 : k q = 0
      · rw [decide_eq_true h0, if_pos rfl, update_self, h0]
        rfl
      · rw [decide_eq_false h0, if_neg (by simp), h.alive, decide_eq_true hpos, decide_eq_true (by omega)]
    · have halive := h.alive q
      rw [bump_of_ne hqp] at halive
      split
      · rw [update_of_ne hqp, halive]
      · exact halive
  · dsimp only
    by_cases hqp : q = p
    · rw [hqp, update_self, h1]
    · have := h.refcnt q
      rw [bump_of_ne hqp] at this
      rw [update_of_ne hqp, this hq]

/-! ### What the functions do to a table -/

section
variable {m : UkFmap} {fd : Int} {s : Option (BitVec 64 × Bool)}

theorem Tab.at_eq_some (h : tab.at fd = some (p, c)) : ∃ i : Nat, fd = i ∧ tab i = some (p, c) := by
  unfold Tab.at at h
  split at h
  next h0 =>
    exact ⟨fd.toNat, (Int.toNat_of_nonneg h0).symm, h⟩
  next =>
    cases h

@[simp] theorem Tab.at_natCast : tab.at i = tab i := if_pos (Int.natCast_nonneg i)

theorem Tab.Ok.set (hok : tab.Ok n) (hi : i < n) (hp : p ≠ 0) (ha : p &&& FLAG_MASK = 0) :
    Tab.Ok n (update tab i (some (p, c))) := by
  intro j q d hj
  by_cases hji : j = i
  · subst hji
    rw [update_self] at hj
    cases hj
    exact ⟨hi, hp, ha⟩
  · rw [update_of_ne hji] at hj
    exact hok j q d hj

private theorem Tab.Ok.clear (hok : tab.Ok n) : Tab.Ok n (update tab i none) := by
  intro j q d hj
  by_cases hji : j = i
  · subst hji
    rw [update_self] at hj
    cases hj
  · rw [update_of_ne hji] at hj
    exact hok j q d hj

private theorem entry_update : update (fun j => slotEntry (tab j)) i (slotEntry s) = fun j =>
    slotEntry (update tab i s j) := by
  funext j
  by_cases hji : j = i
  · rw [hji, update_self, update_self]
  · rw [update_of_ne hji, update_of_ne hji]

private theorem entry_self (h : tab i = s) :
    update (fun j => slotEntry (tab j)) i (slotEntry s) = fun j => slotEntry (tab j) := by
  rw [← h, update_eq_self]

private theorem entry_eq_zero (hok : tab.Ok n) : slotEntry (tab i) = 0 ↔ tab i = none := by
  constructor
  · intro h
    cases hs : tab i with
    | none => rfl
    | some s =>
      rw [hs] at h
      exact absurd h (entry_ne_zero (hok i s.1 s.2 hs).2.1)
  · intro h
    rw [h]
    rfl

theorem fdtabGet_of_acq {fs' : Files} (hm : m.Is n fun j => slotEntry (tab j)) (hok : tab.Ok n)
    (hs : tab i = some (p, c)) (hacq : fileAcq fs p = some fs') :
    ∃ m', fdtabGet m fs i = some (⟨p, flagOf c⟩, m', fs') ∧ m'.Is n fun j => slotEntry (tab j) := by
  obtain ⟨hi, hp, ha⟩ := hok i p c hs
  have he : slotEntry (tab i) ≠ 0 := by
    rw [hs]
    exact entry_ne_zero hp
  obtain ⟨m1, htake, hm1⟩ := criticalTake_used hm hi he
  obtain ⟨m2, hput, hm2⟩ := criticalPut_taken hm1 hi he
  refine ⟨m2, ?_, ?_⟩
  · unfold fdtabGet
    rw [if_pos (Int.natCast_nonneg i), htake]
    simp only [bind, Option.bind]
    rw [if_pos he, hs, decode_eq ha]
    rw [hacq]
    rw [← hs, hput]
  · rw [entry_self rfl] at hm2
    exact hm2

variable (h : Rep n m fs tab ext) {k : Nat}

include h

/-- A descriptor that is not open has no entry. -/
theorem Rep.at_none (hat : tab.at fd = none) :
    ukFmapLookup m fd = some 0 ∧ ukFmapTake m fd = some (0, m) ∧ ukFmapCriticalTake m fd = some (0, m) := by
  by_cases hr : 0 ≤ fd ∧ fd.toNat < n
  · obtain ⟨i, rfl⟩ := Int.eq_ofNat_of_zero_le hr.1
    have hi : i < n := hr.2
    rw [Tab.at_natCast] at hat
    have he := (entry_eq_zero h.ok).2 hat
    refine ⟨?_, take_free h.map hi he, criticalTake_free h.map hi he⟩
    rw [fmapLookup_eq h.map hi, he]
  · exact fmap_outOfRange h.map hr

theorem fdtabGet_none (hat : tab.at fd = none) : fdtabGet m fs fd = some (⟨0, 0⟩, m, fs) := by
  unfold fdtabGet
  by_cases h0 : fd ≥ 0
  · rw [if_pos h0, (h.at_none hat).2.2]
    rfl
  · rw [if_neg h0]

/-- `_fdtab_get` hands out a reference. -/
theorem fdtabGet_some (hs : tab i = some (p, c)) (hlt : tab.slots n p + ext p < 2 ^ 32 - 1) :
    ∃ m' fs', fdtabGet m fs i = some (⟨p, flagOf c⟩, m', fs') ∧ Rep n m' fs' tab (bump ext p) := by
  have hpos := Nat.add_pos_left (slots_pos (h.ok i p c hs).1 hs) (ext p)
  obtain ⟨fs', hacq, hfs'⟩ := fileAcq_spec h.counts hpos hlt
  obtain ⟨m', hget, hm'⟩ := fdtabGet_of_acq h.map h.ok hs hacq
  refine ⟨m', fs', hget, hm', h.ok, ?_⟩
  rw [bump_add_right]
  exact hfs'

/-- `uk_fdtab_setflags` changes the flag of the slot and nothing else. -/
theorem setflags_spec (hf : flags &&& ~~~O_CLOEXEC = 0) (hs : tab i = some (p, c)) :
    ∃ m', ukFdtabSetflags m i flags = some (.ok 0, m') ∧
    Rep n m' fs (update tab i (some (p, decide (flags ≠ 0)))) ext := by
  obtain ⟨hi, hp, ha⟩ := h.ok i p c hs
  have he : slotEntry (tab i) ≠ 0 := by
    rw [hs]
    exact entry_ne_zero hp
  obtain ⟨m1, htake, hm1⟩ := criticalTake_used h.map hi he
  obtain ⟨m2, hput, hm2⟩ := criticalPut_taken hm1 hi (entry_ne_zero hp)
  refine ⟨m2, ?_, ?_, h.ok.set hi hp ha, ?_⟩
  · unfold ukFdtabSetflags
    rw [if_neg (not_not.2 hf), htake]
    simp only [bind, Option.bind]
    rw [if_neg he, hs, decode_eq ha]
    rw [setCloexec_flagOf, encode_eq ha]
    dsimp only
    rw [hput]
  · rw [entry_update] at hm2
    exact hm2
  · rw [slots_replace hi, ← slots_clear hi hs]
    exact h.counts

section
variable (hs : tab i = some (p, c))
include hs

theorem getflags_spec : ukFdtabGetflags m i = some (.ok (if c then O_CLOEXEC.toNat else 0)) := by
  obtain ⟨hi, hp, ha⟩ := h.ok i p c hs
  unfold ukFdtabGetflags
  rw [fmapLookup_eq h.map hi, hs]
  simp only [bind, Option.bind]
  rw [if_neg (entry_ne_zero hp), decode_eq ha]
  simp only [flagOf_and]

private theorem Rep.drop_slot : ∃ m' fs', ukFmapTake m i = some (slotEntry (some (p, c)), m') ∧
      fileRel fs p = some fs' ∧ Rep n m' fs' (update tab i none) ext := by
  obtain ⟨hi, hp, ha⟩ := h.ok i p c hs
  have hc := h.counts
  rw [slots_clear hi hs, bump_add_left] at hc
  obtain ⟨m', htake, hm'⟩ := take_used h.map hi (by rw [hs]; exact entry_ne_zero hp)
  obtain ⟨fs', hrel, hfs'⟩ := fileRel_spec hc
  rw [show (0 : BitVec 64) = slotEntry none from rfl, entry_update] at hm'
  exact ⟨m', fs', hs ▸ htake, hrel, hm', h.ok.clear, hfs'⟩

/-- `uk_sys_close` empties the slot and releases its reference. -/
theorem close_spec : ∃ m' fs', ukSysClose m fs i = some (.ok 0, m', fs') ∧ Rep n m' fs' (update tab i none) ext := by
  obtain ⟨-, hp, ha⟩ := h.ok i p c hs
  obtain ⟨m', fs', htake, hrel, hrep⟩ := h.drop_slot hs
  refine ⟨m', fs', ?_, hrep⟩
  unfold ukSysClose
  rw [htake]
  simp only [bind, Option.bind]
  rw [if_neg (entry_ne_zero hp), decode_eq ha, hrel]

end

omit h in
/-- The start of a search from `min`: a negative number becomes one that is larger than every descriptor. -/
theorem offset_cases (min : BitVec 32) : (0 ≤ min.toInt ∧ ((min.signExtend 64).toNat : Int) = min.toInt) ∨
      min.toInt < 0 ∧ 2 ^ 63 ≤ (min.signExtend 64).toNat := by
  have h : (min.signExtend 64).toInt = min.toInt := BitVec.toInt_signExtend_of_le (by decide)
  rw [BitVec.toInt_eq_toNat_cond] at h
  by_cases h0 : 0 ≤ min.toInt
  · split at h <;> omega
  · split at h <;> omega

private theorem Rep.put (hn : n < 2 ^ 31) (hp : p ≠ 0) (min : BitVec 32) :
    (∃ i m', tab.Lowest n min.toInt i ∧ 0 ≤ min.toInt ∧ ukFmapPut m (slotEntry (some (p, c))) min =
      some ((i : Int), m') ∧
      m'.Is n fun j => slotEntry (update tab i (some (p, c)) j)) ∨
    ((min.toInt < 0 ∨ ∀ i < n, min.toInt ≤ i → tab i ≠ none) ∧
      ukFmapPut m (slotEntry (some (p, c))) min = some ((n : Int), m)) := by
  have hfree : ∀ j, slotEntry (tab j) ≠ 0 → tab j ≠ none := fun j hj h0 => hj ((entry_eq_zero h.ok).2 h0)
  rcases put_spec h.map (entry_ne_zero hp) min with ⟨i, m', hlow, hput, hm'⟩ | ⟨hfull, hput⟩
  · left
    rcases offset_cases min with ⟨h0, ho⟩ | ⟨-, ho⟩
    · refine ⟨i, m', ⟨hlow.lt, ?_, (entry_eq_zero h.ok).1 hlow.free, fun j hj hle => ?_⟩, h0, hput, ?_⟩
      · have := hlow.le
        omega
      · exact hfree j (hlow.lowest j hj (by omega))
      · rw [entry_update] at hm'
        exact hm'
    · have := hlow.lt
      have := hlow.le
      omega
  · right
    refine ⟨?_, hput⟩
    rcases offset_cases min with ⟨h0, ho⟩ | ⟨hneg, -⟩
    · exact .inr fun i hi hle => hfree i (hfull i hi (by omega))
    · exact .inl hneg

/-- `uk_fdtab_open_desc` puts the description into the lowest free slot, or there is none. -/
theorem openDesc_spec (hn : n < 2 ^ 31) (hp : p ≠ 0) (ha : p &&& FLAG_MASK = 0) (hx : 0 < ext p) (mode : BitVec 32) :
    (∃ i m', tab.Lowest n 0 i ∧ ukFdtabOpenDesc n m p mode = some (.ok i, m') ∧
      Rep n m' fs (update tab i (some (p, decide (mode &&& O_CLOEXEC ≠ 0)))) (drop ext p)) ∨
    ((∀ i < n, tab i ≠ none) ∧ ukFdtabOpenDesc n m p mode = some (.error .ENFILE, m)) := by
  have henc : fdtabEncode p (if mode &&& O_CLOEXEC ≠ 0 then UK_FDTAB_CLOEXEC else 0) =
      some (slotEntry (some (p, decide (mode &&& O_CLOEXEC ≠ 0)))) := by
    rw [← encode_eq ha]
    unfold flagOf
    simp only [decide_eq_true_eq]
  unfold ukFdtabOpenDesc
  rw [henc]
  simp only [bind, Option.bind]
  rcases h.put hn hp 0 with ⟨i, m', hlow, -, hput, hm'⟩ | ⟨hfull, hput⟩
  · left
    refine ⟨i, m', hlow, ?_, hm', h.ok.set hlow.lt hp ha, ?_⟩
    · rw [hput]
      have := hlow.lt
      exact if_neg (by omega)
    · rw [slots_put hlow.lt hlow.free, bump_add_left, ← bump_add_right, bump_drop hx]
      exact h.counts
  · right
    refine ⟨fun i hi => ?_, ?_⟩
    · rcases hfull with hneg | hfull
      · exact absurd hneg (by decide)
      · exact hfull i hi (Int.natCast_nonneg i)
    · rw [hput]
      exact if_pos (le_refl _)

/-- `uk_sys_dup_min` copies the slot to the lowest free one from `min` on, or releases what it took. -/
theorem dupMin_spec (hn : n < 2 ^ 31) (hf : flags &&& ~~~O_CLOEXEC = 0) (hs : tab i = some (p, c))
    (hlt : tab.slots n p + ext p < 2 ^ 32 - 1) (min : BitVec 32) :
    (∃ j m' fs', tab.Lowest n min.toInt j ∧ 0 ≤ min.toInt ∧ ukSysDupMin n m fs i min flags = some (.ok j, m', fs') ∧
      Rep n m' fs' (update tab j (some (p, decide (flags ≠ 0)))) ext) ∨
    (min.toInt < 0 ∨ ∀ j < n, min.toInt ≤ j → tab j ≠ none) ∧
      ∃ m' fs', ukSysDupMin n m fs i min flags = some (.error .ENFILE, m', fs') ∧ Rep n m' fs' tab ext := by
  obtain ⟨hi, hp, ha⟩ := h.ok i p c hs
  obtain ⟨m1, fs1, hget, h1⟩ := fdtabGet_some h hs hlt
  unfold ukSysDupMin
  rw [if_neg (by omega), if_neg (not_not.2 hf), hget]
  simp only [bind, Option.bind]
  rw [if_neg hp, setCloexec_flagOf, encode_eq ha]
  dsimp only
  rcases h1.put hn hp min with ⟨j, m2, hlow, h0, hput, hm2⟩ | ⟨hfull, hput⟩
  · left
    refine ⟨j, m2, fs1, hlow, h0, ?_, hm2, h.ok.set hlow.lt hp ha, ?_⟩
    · rw [hput]
      have := hlow.lt
      exact if_neg (by omega)
    · rw [slots_put hlow.lt hlow.free, bump_add_left, ← bump_add_right]
      exact h1.counts
  · right
    have hc := h1.counts
    rw [bump_add_right] at hc
    obtain ⟨fs2, hrel, hfs2⟩ := fileRel_spec hc
    refine ⟨hfull, m1, fs2, ?_, h1.map, h.ok, hfs2⟩
    rw [hput]
    dsimp only
    rw [if_pos (le_refl _), hrel]

/-- `uk_sys_dup3` replaces the slot `j` and releases what was in it. -/
theorem dup3_spec {j : Nat} (hf : flags &&& ~~~O_CLOEXEC = 0) (hs : tab i = some (p, c)) (hj : j < n) (hij : i ≠ j)
    (hlt : tab.slots n p + ext p < 2 ^ 32 - 1) :
    ∃ m' fs', ukSysDup3 n m fs i j flags = some (.ok j, m', fs') ∧
      Rep n m' fs' (update tab j (some (p, decide (flags ≠ 0)))) ext := by
  obtain ⟨hi, hp, ha⟩ := h.ok i p c hs
  obtain ⟨m1, fs1, hget, h1⟩ := fdtabGet_some h hs hlt
  have hne : slotEntry (some (p, decide (flags ≠ 0))) ≠ 0 := entry_ne_zero hp
  unfold ukSysDup3
  rw [if_neg (by omega), if_neg (by omega), if_neg (not_not.2 hf), hget]
  simp only [bind, Option.bind]
  rw [if_neg hp, setCloexec_flagOf, encode_eq ha]
  dsimp only
  have hc := h1.counts
  cases hold : tab j with
  | none =>
    obtain ⟨m2, hx, hm2⟩ := xchg_free h1.map hj ((entry_eq_zero h.ok).2 hold) hne
    refine ⟨m2, fs1, ?_, ?_, h.ok.set hj hp ha, ?_⟩
    · rw [hx]
      rfl
    · rw [entry_update] at hm2
      exact hm2
    · rw [slots_put hj hold, bump_add_left, ← bump_add_right]
      exact hc
  | some s =>
    obtain ⟨q, d⟩ := s
    obtain ⟨-, hq, hqa⟩ := h.ok j q d hold
    have he : slotEntry (tab j) ≠ 0 := by
      rw [hold]
      exact entry_ne_zero hq
    obtain ⟨m2, hx, hm2⟩ := xchg_used h1.map hj he hne
    -- the slot's reference of `q` goes, and the one taken above becomes that of the slot
    rw [slots_clear hj hold, bump_add_left] at hc
    obtain ⟨fs2, hrel, hfs2⟩ := fileRel_spec hc
    refine ⟨m2, fs2, ?_, ?_, h.ok.set hj hp ha, ?_⟩
    · rw [hx]
      dsimp only
      rw [if_neg (not_not.2 rfl), Option.getD_some, if_pos he, hold, decode_eq hqa, hrel]
    · rw [entry_update] at hm2
      exact hm2
    · rw [slots_replace hj, bump_add_left, ← bump_add_right]
      exact hfs2

/-! ### The loops over a table -/

/-- The slot is emptied if it has the flag or all slots are to be. -/
theorem cleanupSlot_spec (all : Bool) (hi : i < n) : ∃ m' fs', cleanupSlot all (m, fs) i = some (m', fs') ∧
      Rep n m' fs' (update tab i ((tab i).filter fun s => !(all || s.2))) ext := by
  unfold cleanupSlot
  rw [fmapLookup_eq h.map hi]
  simp only [bind, Option.bind]
  cases hs : tab i with
  | none =>
    refine ⟨m, fs, if_neg (not_not.2 rfl), ?_⟩
    rw [Option.filter_none, ← hs, update_eq_self]
    exact h
  | some s =>
    obtain ⟨p, c⟩ := s
    obtain ⟨-, hp, ha⟩ := h.ok i p c hs
    rw [if_pos (entry_ne_zero hp), decode_eq ha]
    simp only [flagOf_and]
    by_cases hall : all = true ∨ c = true
    · have hgone : Option.filter (fun s : BitVec 64 × Bool => !(all || s.2)) (some (p, c)) = none := by
        rcases hall with hall | hc
        · simp [hall]
        · simp [hc]
      obtain ⟨m', fs', htake, hrel, hrep⟩ := h.drop_slot hs
      refine ⟨m', fs', ?_, ?_⟩
      · rw [if_pos hall, htake]
        dsimp only
        rw [if_pos rfl, hrel]
      · rw [hgone]
        exact hrep
    · have hkept : Option.filter (fun s : BitVec 64 × Bool => !(all || s.2)) (some (p, c)) = some (p, c) := by
        rw [not_or] at hall
        simp [hall.1, hall.2]
      refine ⟨m, fs, if_neg hall, ?_⟩
      rw [hkept, ← hs, update_eq_self]
      exact h

private theorem cleanup_rounds (all : Bool) (hk : k ≤ n) : ∃ m' fs', (List.range k).foldlM (cleanupSlot all)
    (m, fs) = some (m', fs') ∧
      Rep n m' fs' (fun i => if i < k then tab.cleaned all i else tab i) ext := by
  induction k with
  | zero => exact ⟨m, fs, rfl, h⟩
  | succ k ih =>
    obtain ⟨m1, fs1, h1, hr1⟩ := ih (by omega)
    obtain ⟨m2, fs2, h2, hr2⟩ := cleanupSlot_spec hr1 all (i := k) (by omega)
    refine ⟨m2, fs2, ?_, ?_⟩
    · rw [List.range_succ, List.foldlM_append, h1]
      simp only [bind, Option.bind, List.foldlM_cons, h2]
      rfl
    · rw [if_neg (lt_irrefl k)] at hr2
      convert hr2 using 2 with i
      by_cases hik : i = k
      · rw [hik, update_self, if_pos (Nat.lt_succ_self k)]
        rfl
      · rw [update_of_ne hik]
        exact if_congr (by omega) rfl rfl

/-- `fdtab_cleanup` empties the slots with the flag, or all. -/
theorem cleanup_spec (all : Bool) : ∃ m' fs', fdtabCleanup n m fs all = some (m', fs') ∧
    Rep n m' fs' (tab.cleaned all) ext := by
  obtain ⟨m', fs', heq, hr⟩ := cleanup_rounds h all (le_refl n)
  refine ⟨m', fs', heq, ?_⟩
  convert hr using 2 with i
  by_cases hi : i < n
  · rw [if_pos hi]
  · rw [if_neg hi]
    cases hs : tab i with
    | none =>
      unfold Tab.cleaned
      rw [hs, Option.filter_none]
    | some s => exact absurd (h.ok i s.1 s.2 hs).1 hi

omit h in
private theorem slots_succ_none (hs : tab i = none) : tab.slots (i + 1) = tab.slots i := by
  funext q
  unfold Tab.slots
  rw [Nat.count_succ, hs, if_neg (by simp), Nat.add_zero]

omit h in
private theorem slots_succ_some (hs : tab i = some (p, c)) : tab.slots (i + 1) = bump (tab.slots i) p := by
  funext q
  unfold Tab.slots
  rw [Nat.count_succ, hs, Option.map_some]
  by_cases hq : q = p
  · rw [hq, bump_self, if_pos rfl]
  · rw [bump_of_ne hq, if_neg (fun heq => hq (Option.some.inj heq).symm), Nat.add_zero]

/-- After `k` rounds the copy has the slots below `k`, each with a reference. -/
private theorem duplicate_rounds (bitmap : Words) (map : Nat → BitVec 64) (hk : k ≤ n)
    (hfit : ∀ p, tab.slots n p + ext p + tab.slots n p ≤ 2 ^ 32 - 1) :
    ∃ m' fs' copy, (List.range k).foldlM duplicateSlot (m, fs, ⟨⟨bitmap, n⟩, map⟩) = some (m', fs', copy) ∧
      Rep n m' fs' tab (fun p => ext p + tab.slots k p) ∧ copy.bmap.size = n ∧
      (∀ j < k, copy.map j = slotEntry (tab j)) ∧
      ∀ j < k, copy.bmap.bitmap.bit j = decide (slotEntry (tab j) = 0) := by
  induction k with
  | zero =>
    exact ⟨m, fs, _, rfl, h, rfl, fun j hj => absurd hj (Nat.not_lt_zero j),
        fun j hj => absurd hj (Nat.not_lt_zero j)⟩
  | succ k ih =>
    obtain ⟨m1, fs1, copy, h1, hr1, hsize, hmap, hbit⟩ := ih (by omega)
    have hset := set_slot hsize (by omega : k < n) hmap hbit
    have hround : ∀ s, duplicateSlot (m1, fs1, copy) k = some s →
        (List.range (k + 1)).foldlM duplicateSlot (m, fs, ⟨⟨bitmap, n⟩, map⟩) = some s := by
      intro s hs
      rw [List.range_succ, List.foldlM_append, h1]
      simp only [bind, Option.bind, List.foldlM_cons, hs]
      rfl
    cases hs : tab k with
    | none =>
      refine ⟨m1, fs1, ukFmapSet copy k (slotEntry (tab k)), hround _ ?_, ?_, hset⟩
      · unfold duplicateSlot
        rw [fdtabGet_none hr1 (by rw [Tab.at_natCast, hs])]
        rw [hs]
        rfl
      · rw [slots_succ_none hs]
        exact hr1
    | some s =>
      obtain ⟨p, c⟩ := s
      obtain ⟨hkn, hp, ha⟩ := h.ok k p c hs
      have hlt : tab.slots n p + (ext p + tab.slots k p) < 2 ^ 32 - 1 := by
        have hcount : tab.slots (k + 1) p ≤ tab.slots n p := Nat.count_monotone _ hkn
        rw [slots_succ_some hs, bump_self] at hcount
        have := hfit p
        omega
      obtain ⟨m2, fs2, h2, hr2⟩ := fdtabGet_some hr1 hs hlt
      refine ⟨m2, fs2, ukFmapSet copy k (slotEntry (tab k)), hround _ ?_, ?_, hset⟩
      · unfold duplicateSlot
        rw [h2]
        simp only [bind, Option.bind]
        rw [if_pos hp, encode_eq ha, hs]
      · rw [slots_succ_some hs, bump_add_right]
        exact hr2

/-- `fdtab_duplicate` makes a copy that has one reference for each of its slots. -/
theorem duplicate_spec (bitmap : Words) (map : Nat → BitVec 64)
    (hfit : ∀ p, tab.slots n p + ext p + tab.slots n p ≤ 2 ^ 32 - 1) :
    ∃ m' fs' copy, fdtabDuplicate n m fs bitmap map = some (m', fs', copy) ∧
      Rep n m' fs' tab (fun p => ext p + tab.slots n p) ∧ copy.Is n fun i => slotEntry (tab i) := by
  obtain ⟨m', fs', copy, heq, hr, hsize, hmap, hbit⟩ := duplicate_rounds h bitmap map (le_refl n) hfit
  exact ⟨m', fs', copy, heq, hr, hsize, hmap, hbit⟩

end

end Unikraft.Fdtab
