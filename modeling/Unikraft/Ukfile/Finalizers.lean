import Mathlib.Algebra.Ring.Nat
import Unikraft.Lib.Runs

/-!
# Files, their counters and their finalizers

A file counts all its references and the strong ones, in words of 32 bits that wrap. A finalizer is meant to run when
the last strong reference goes. The only one, `epoll_autodel`, deletes an entry of an epoll file. `uk_file_release`
tests `r | UK_SWREFCOUNT_LAST_STRONG`, which is never 0: it walks the finalizers at every release. `misuse` says that
the file was accessed after it was freed; the fields behind it are history.
-/

namespace Unikraft.Ukfile

/-- The assertion that the counter is below `__U32_MAX`, which a build without `CONFIG_LIBUKDEBUG` leaves out, is not
part of the model: without it the counter wraps, and the results below are for runs in which it holds. -/
def ukRefcountAcquire (c : BitVec 32) : BitVec 32 := c + 1

def ukRefcountRelease (c : BitVec 32) : BitVec 32 × Bool := (c - 1, if 1 < c then false else true)

variable {c : BitVec 32}

theorem acquire_toNat (h : c.toNat < 2 ^ 32 - 1) : (ukRefcountAcquire c).toNat = c.toNat + 1 := by
  unfold ukRefcountAcquire
  bv_omega

/-- A release says whether it was the last one. -/
theorem refcountRelease_spec {n : Nat} (h : c.toNat = n + 1) :
    (ukRefcountRelease c).1.toNat = n ∧ (ukRefcountRelease c).2 = decide (n = 0) := by
  unfold ukRefcountRelease
  refine ⟨by dsimp only; bv_omega, ?_⟩
  by_cases hn : n = 0
  · rw [if_neg (by bv_omega), hn]
    rfl
  · rw [if_pos (by bv_omega), decide_eq_false hn]

structure UkSwrefcount where
  refcount : BitVec 32
  strong : BitVec 32
  deriving DecidableEq

def UK_SWREFCOUNT_LAST_STRONG : BitVec 32 := 2
def UK_SWREFCOUNT_LAST_REF : BitVec 32 := 1

variable (sw : UkSwrefcount)

def ukSwrefcountAcquireWeak : UkSwrefcount := { sw with refcount := ukRefcountAcquire sw.refcount }

def ukSwrefcountAcquire : UkSwrefcount :=
  let sw := ukSwrefcountAcquireWeak sw
  { sw with strong := ukRefcountAcquire sw.strong }

def ukSwrefcountReleaseWeak : UkSwrefcount × BitVec 32 :=
  let r := ukRefcountRelease sw.refcount
  ({ sw with refcount := r.1 }, if r.2 then UK_SWREFCOUNT_LAST_REF else 0)

/-- The last reference has to be a strong one, or an assertion fails. -/
def ukSwrefcountRelease : Option (UkSwrefcount × BitVec 32) :=
  let r := ukRefcountRelease sw.strong
  let ret := if r.2 then UK_SWREFCOUNT_LAST_STRONG else 0
  let w := ukSwrefcountReleaseWeak { sw with strong := r.1 }
  if w.2 ≠ 0 then
    if ret = 0 then none else some (w.1, ret ||| UK_SWREFCOUNT_LAST_REF)
  else some (w.1, ret)

structure UkSwrefcount.Counts (sw : UkSwrefcount) (s w : Nat) : Prop where
  strong : sw.strong.toNat = s
  refcount : sw.refcount.toNat = s + w

section
variable {sw : UkSwrefcount} {s w : Nat}

private theorem UkSwrefcount.Counts.acquireWeak (h : sw.Counts s w) (hlt : s + w < 2 ^ 32 - 1) :
    (ukSwrefcountAcquireWeak sw).Counts s (w + 1) :=
  ⟨h.strong, (acquire_toNat (h.refcount ▸ hlt)).trans (by rw [h.refcount]; omega)⟩

private theorem UkSwrefcount.Counts.acquire (h : sw.Counts s w) (hlt : s + w < 2 ^ 32 - 1) :
    (ukSwrefcountAcquire sw).Counts (s + 1) w := by
  have hs : sw.strong.toNat < 2 ^ 32 - 1 := by
    have := h.strong
    omega
  refine ⟨(acquire_toNat hs).trans (by rw [h.strong]), ?_⟩
  exact (acquire_toNat (h.refcount ▸ hlt)).trans (by rw [h.refcount]; omega)

private theorem UkSwrefcount.Counts.releaseWeak (h : sw.Counts s (w + 1)) :
    (ukSwrefcountReleaseWeak sw).1.Counts s w ∧
      (ukSwrefcountReleaseWeak sw).2 = if s + w = 0 then UK_SWREFCOUNT_LAST_REF else 0 := by
  obtain ⟨h1, h2⟩ := refcountRelease_spec (n := s + w) (h.refcount.trans (by omega))
  refine ⟨⟨h.strong, h1⟩, ?_⟩
  unfold ukSwrefcountReleaseWeak
  dsimp only
  rw [h2]
  simp only [decide_eq_true_eq]

private theorem UkSwrefcount.Counts.release (h : sw.Counts (s + 1) w) :
    ∃ sw', sw'.Counts s w ∧ ukSwrefcountRelease sw = some (sw',
      if s = 0 then if w = 0 then UK_SWREFCOUNT_LAST_STRONG ||| UK_SWREFCOUNT_LAST_REF else UK_SWREFCOUNT_LAST_STRONG
      else 0) := by
  obtain ⟨h1, h2⟩ := refcountRelease_spec h.strong
  have hc : UkSwrefcount.Counts { sw with strong := (ukRefcountRelease sw.strong).1 } s (w + 1) :=
    ⟨h1, h.refcount.trans (by omega)⟩
  obtain ⟨h3, h4⟩ := hc.releaseWeak
  refine ⟨_, h3, ?_⟩
  unfold ukSwrefcountRelease
  dsimp only
  rw [h4, h2]
  by_cases hs : s = 0
  · subst hs
    by_cases hw : w = 0
    · subst hw
      rfl
    · simp [hw]
  · simp [hs]

end

open List Runs

/-- A finalizer that does not use the file, or the one of an epoll entry. -/
inductive Cb where
  | plain (id : Nat)
  | epoll (entry : Nat)
  deriving DecidableEq

structure UkFile where
  cnt : UkSwrefcount
  fins : List Cb
  entries : List Nat
  released : Bool
  freed : Bool
  misuse : Bool
  failed : Bool
  ran : List Cb
  strongRefs : Nat
  weakRefs : Nat
  registered : List Cb
  due : List Cb

namespace UkFile

def init : UkFile where
  cnt := ⟨1, 1⟩
  fins := []
  entries := []
  released := false
  freed := false
  misuse := false
  failed := false
  ran := []
  strongRefs := 1
  weakRefs := 0
  registered := []
  due := []

def access (f : UkFile) : UkFile := { f with misuse := f.misuse || f.freed }

def release (f : UkFile) (what : BitVec 32) : UkFile :=
  { f.access with
    released := f.released || decide (what &&& UK_SWREFCOUNT_LAST_STRONG ≠ 0)
    freed := f.freed || decide (what &&& UK_SWREFCOUNT_LAST_REF ≠ 0) }

end UkFile

section
variable (f : UkFile)

def ukFileAcquire : UkFile := { f.access with cnt := ukSwrefcountAcquire f.cnt }

def ukFileAcquireWeak : UkFile := { f.access with cnt := ukSwrefcountAcquireWeak f.cnt }

def ukFileReleaseWeak : UkFile :=
  let r := ukSwrefcountReleaseWeak f.cnt
  let f := { f.access with cnt := r.1 }
  if r.2 ≠ 0 then f.release r.2 else f

def ukFileFinalizerRegister (cb : Cb) : UkFile :=
  if f.cnt.strong = 0 then { f.access with failed := true } else { f.access with fins := cb :: f.fins }

def ukFileFinalizerUnregister (cb : Cb) : UkFile :=
  if f.cnt.strong ≠ 0 then { f.access with fins := f.fins.erase cb } else f.access

/-- The ticket of the entry is removed from the poll queue, which is part of the file. -/
def epollUnregisterEntry (e : Nat) : UkFile := ukFileReleaseWeak (ukFileFinalizerUnregister f (.epoll e)).access

def epollEntryDel (e : Nat) : UkFile := epollUnregisterEntry { f with entries := f.entries.erase e } e

/-- An entry that is not found is a null pointer. -/
def epollAutodel (e : Nat) : UkFile := if e ∈ f.entries then epollEntryDel f e else { f with failed := true }

def callFinalizer : Cb → UkFile
  | .plain n => { f with ran := f.ran ++ [.plain n] }
  | .epoll e => epollAutodel { f with ran := f.ran ++ [.epoll e] } e

/-- A finalizer only takes itself off the list, and the next one is read before the call. -/
def ukFileFinrefFinalize : UkFile := f.fins.foldl callFinalizer f.access

def ukFileRelease : UkFile :=
  match ukSwrefcountRelease f.cnt with
  | none => { f.access with failed := true }
  | some (cnt, r) =>
    let f := { f.access with cnt := cnt }
    let f := if r ≠ 0 then f.release r else f
    if r ||| UK_SWREFCOUNT_LAST_STRONG ≠ 0 then ukFileFinrefFinalize f else f

end

/-- `add` and `del` are what `EPOLL_CTL_ADD` and `EPOLL_CTL_DEL` do to a monitored file. -/
inductive Op where
  | acquire
  | release
  | acquireWeak
  | releaseWeak
  | register (id : Nat)
  | unregister (id : Nat)
  | add (entry : Nat)
  | del (entry : Nat)
  deriving DecidableEq

def step (f : UkFile) : Op → UkFile
  | .acquire => { ukFileAcquire f with strongRefs := f.strongRefs + 1 }
  | .release =>
    if f.strongRefs = 1 then { ukFileRelease f with strongRefs := 0, registered := [], due := f.registered }
    else { ukFileRelease f with strongRefs := f.strongRefs - 1 }
  | .acquireWeak => { ukFileAcquireWeak f with weakRefs := f.weakRefs + 1 }
  | .releaseWeak => { ukFileReleaseWeak f with weakRefs := f.weakRefs - 1 }
  | .register n => { ukFileFinalizerRegister f (.plain n) with registered := .plain n :: f.registered }
  | .unregister n => { ukFileFinalizerUnregister f (.plain n) with registered := f.registered.erase (.plain n) }
  | .add e =>
    let f := { ukFileAcquireWeak f with entries := e :: f.entries }
    { ukFileFinalizerRegister f (.epoll e) with registered := .epoll e :: f.registered }
  | .del e =>
    if e ∈ f.entries then { epollEntryDel f e with registered := f.registered.erase (.epoll e) } else f

/-- No more is released than was acquired, and references and finalizers are only added by holders of a reference. -/
def Legal (f : UkFile) : Op → Prop
  | .acquire => 1 ≤ f.strongRefs
  | .release => 1 ≤ f.strongRefs
  | .acquireWeak => 1 ≤ f.strongRefs + f.weakRefs
  | .releaseWeak => 1 ≤ f.weakRefs
  | .register n => 1 ≤ f.strongRefs ∧ .plain n ∉ f.registered
  | .unregister _ => 1 ≤ f.strongRefs + f.weakRefs
  | .add e => 1 ≤ f.strongRefs ∧ e ∉ f.entries
  | .del _ => True

/-- A release leaves no strong reference or no finalizer is registered, the last strong reference is not the last one,
and there are less than `2 ^ 32 - 1` references when one is added. -/
def Safe (f : UkFile) : Op → Prop
  | .acquire | .acquireWeak | .add _ => f.strongRefs + f.weakRefs + f.entries.length < 2 ^ 32 - 1
  | .release => (f.strongRefs ≠ 1 → f.registered = []) ∧ (f.strongRefs = 1 → 1 ≤ f.weakRefs + f.entries.length)
  | _ => True

instance (f : UkFile) : (op : Op) → Decidable (Legal f op)
  | .acquire => inferInstanceAs (Decidable (1 ≤ f.strongRefs))
  | .release => inferInstanceAs (Decidable (1 ≤ f.strongRefs))
  | .acquireWeak => inferInstanceAs (Decidable (1 ≤ f.strongRefs + f.weakRefs))
  | .releaseWeak => inferInstanceAs (Decidable (1 ≤ f.weakRefs))
  | .register n => inferInstanceAs (Decidable (1 ≤ f.strongRefs ∧ .plain n ∉ f.registered))
  | .unregister _ => inferInstanceAs (Decidable (1 ≤ f.strongRefs + f.weakRefs))
  | .add e => inferInstanceAs (Decidable (1 ≤ f.strongRefs ∧ e ∉ f.entries))
  | .del _ => inferInstanceAs (Decidable True)

/-- The finalizers that ran are those that were registered when the last strong reference went, each once, and nothing
was accessed after the object was freed. -/
structure FinalizersOk (f : UkFile) : Prop where
  ran : f.ran.Perm f.due
  once : f.ran.Nodup
  misuse : f.misuse = false

variable {f : UkFile}

section
variable {s w : Nat} {e : Nat}

private theorem UkFile.access_eq (h : f.freed = false) : f.access = f := by
  cases f
  cases h
  simp [UkFile.access]

private theorem releaseWeak_eq (hc : f.cnt.Counts s (w + 1)) (hf : f.freed = false) :
    ∃ cnt, cnt.Counts s w ∧ ukFileReleaseWeak f = { f with cnt := cnt, freed := decide (s + w = 0) } := by
  obtain ⟨h1, h2⟩ := hc.releaseWeak
  refine ⟨_, h1, ?_⟩
  unfold ukFileReleaseWeak
  dsimp only
  rw [UkFile.access_eq hf, h2]
  split
  next h0 =>
    rw [if_pos (by decide), decide_eq_true h0]
    unfold UkFile.release UkFile.access
    simp [hf, UK_SWREFCOUNT_LAST_REF, UK_SWREFCOUNT_LAST_STRONG]
  next h0 =>
    rw [if_neg (not_not.2 rfl), decide_eq_false h0, ← hf]

private theorem finalizerUnregister_eq {cb : Cb} (hs : f.cnt.strong.toNat = s) (hf : f.freed = false) :
    ukFileFinalizerUnregister f cb = { f with fins := if s = 0 then f.fins else f.fins.erase cb } := by
  have h0 : f.cnt.strong = 0 ↔ s = 0 := by
    rw [← hs]
    exact ⟨fun h => by rw [h]; rfl, fun h => BitVec.eq_of_toNat_eq h⟩
  unfold ukFileFinalizerUnregister
  rw [UkFile.access_eq hf]
  by_cases hs0 : s = 0
  · rw [if_neg (not_not.2 (h0.2 hs0)), if_pos hs0]
  · rw [if_pos (fun h => hs0 (h0.1 h)), if_neg hs0]

private theorem epollUnregisterEntry_eq (hc : f.cnt.Counts s (w + 1)) (hf : f.freed = false) :
    ∃ cnt, cnt.Counts s w ∧ epollUnregisterEntry f e = { f with
      cnt := cnt
      fins := if s = 0 then f.fins else f.fins.erase (.epoll e)
      freed := decide (s + w = 0) } := by
  unfold epollUnregisterEntry
  rw [finalizerUnregister_eq hc.strong hf]
  generalize (if s = 0 then f.fins else f.fins.erase (.epoll e)) = l
  rw [UkFile.access_eq (f := { f with fins := l }) hf]
  exact releaseWeak_eq hc hf

private theorem epollEntryDel_eq (hc : f.cnt.Counts s (w + 1)) (hf : f.freed = false) :
    ∃ cnt, cnt.Counts s w ∧ epollEntryDel f e = { f with
      cnt := cnt
      entries := f.entries.erase e
      fins := if s = 0 then f.fins else f.fins.erase (.epoll e)
      freed := decide (s + w = 0) } :=
  epollUnregisterEntry_eq (f := { f with entries := f.entries.erase e }) hc hf

/-- A walk over the finalizers without strong references. The entries go one by one, each with its weak reference, and
the last reference may be among them. -/
private theorem foldl_callFinalizer {l : List Cb} (hc : f.cnt.Counts 0 (f.weakRefs + f.entries.length))
    (hf : f.freed = decide (f.weakRefs + f.entries.length = 0)) (hn : f.entries.Nodup) (hl : l.Nodup)
    (he : ∀ e, .epoll e ∈ l ↔ e ∈ f.entries) :
    ∃ cnt, cnt.Counts 0 f.weakRefs ∧ l.foldl callFinalizer f = { f with
      cnt := cnt
      entries := []
      ran := f.ran ++ l
      freed := decide (f.weakRefs = 0) } := by
  induction l generalizing f with
  | nil =>
    have hnil : f.entries = [] := eq_nil_iff_forall_not_mem.2 fun e h => absurd ((he e).2 h) not_mem_nil
    rw [hnil] at hc hf
    refine ⟨f.cnt, hc, ?_⟩
    rw [append_nil, ← hnil]
    rw [show decide (f.weakRefs = 0) = f.freed from hf.symm]
    rfl
  | cons cb l ih =>
    obtain ⟨hcb, hl'⟩ := nodup_cons.1 hl
    rw [foldl_cons]
    cases cb with
    | plain n =>
      have he' : ∀ e, .epoll e ∈ l ↔ e ∈ f.entries := fun e => by
        rw [← he e, mem_cons]
        simp
      obtain ⟨cnt, hcnt, h⟩ := ih (f := callFinalizer f (.plain n)) hc hf hn hl' he'
      refine ⟨cnt, hcnt, h.trans ?_⟩
      rw [append_cons]
      rfl
    | epoll e =>
      have hmem : e ∈ f.entries := (he e).1 mem_cons_self
      have hlen : (f.entries.erase e).length + 1 = f.entries.length := by
        have := length_erase_of_mem hmem
        have := length_pos_of_mem hmem
        omega
      have hfree : f.freed = false := by
        rw [hf, decide_eq_false]
        omega
      have hc' : f.cnt.Counts 0 (f.weakRefs + (f.entries.erase e).length + 1) := by
        rw [Nat.add_assoc, hlen]
        exact hc
      obtain ⟨cnt1, hcnt1, h1⟩ :=
        epollEntryDel_eq (f := { f with ran := f.ran ++ [.epoll e] }) hc' hfree
      have hstep : callFinalizer f (.epoll e) = epollEntryDel { f with ran := f.ran ++ [.epoll e] } e := if_pos hmem
      rw [hstep, h1]
      obtain ⟨cnt, hcnt, h⟩ := ih (f := { f with
          cnt := cnt1, entries := f.entries.erase e, ran := f.ran ++ [.epoll e],
          freed := decide (0 + (f.weakRefs + (f.entries.erase e).length) = 0) })
        hcnt1 (by rw [Nat.zero_add]) (hn.erase e) hl' fun e' => by
          rw [hn.mem_erase_iff, ← he e', mem_cons]
          constructor
          · intro h
            refine ⟨fun heq => hcb (heq ▸ h), .inr h⟩
          · rintro ⟨hne, h | h⟩
            · exact absurd (Cb.epoll.inj h) hne
            · exact h
      refine ⟨cnt, hcnt, ?_⟩
      refine h.trans ?_
      rw [append_cons f.ran (.epoll e) l]

private theorem release_strong (hc : f.cnt.Counts (s + 2) w) (hf : f.freed = false) (hfins : f.fins = []) :
    ∃ cnt, cnt.Counts (s + 1) w ∧ ukFileRelease f = { f with cnt := cnt } := by
  obtain ⟨cnt, hcnt, h⟩ := hc.release
  refine ⟨cnt, hcnt, ?_⟩
  unfold ukFileRelease
  rw [h, if_neg (Nat.succ_ne_zero s)]
  dsimp only
  rw [if_neg (not_not.2 rfl), if_pos (by decide), UkFile.access_eq hf]
  unfold ukFileFinrefFinalize
  rw [UkFile.access_eq (f := { f with cnt := cnt }) hf]
  rw [hfins, foldl_nil]

private theorem release_last (hc : f.cnt.Counts 1 w) (hf : f.freed = false) (hw : w ≠ 0) :
    ∃ cnt, cnt.Counts 0 w ∧ ukFileRelease f = f.fins.foldl callFinalizer { f with cnt := cnt, released := true } := by
  obtain ⟨cnt, hcnt, h⟩ := hc.release
  refine ⟨cnt, hcnt, ?_⟩
  unfold ukFileRelease
  rw [h, if_pos rfl, if_neg hw]
  dsimp only
  rw [if_pos (by decide), if_pos (by decide), UkFile.access_eq hf]
  have hrel : UkFile.release { f with cnt := cnt } UK_SWREFCOUNT_LAST_STRONG =
    { f with cnt := cnt, released := true } := by
    unfold UkFile.release
    rw [UkFile.access_eq (f := { f with cnt := cnt }) hf]
    simp [UK_SWREFCOUNT_LAST_STRONG, UK_SWREFCOUNT_LAST_REF]
  rw [hrel]
  unfold ukFileFinrefFinalize
  rw [UkFile.access_eq (f := { f with cnt := cnt, released := true }) hf]

end

structure Open (f : UkFile) : Prop where
  fins : f.fins = f.registered
  nodup : f.registered.Nodup
  entries : ∀ e, .epoll e ∈ f.registered ↔ e ∈ f.entries
  ran : f.ran = []
  due : f.due = []

structure Closed (f : UkFile) : Prop where
  entries : f.entries = []
  ran : f.ran = f.due
  nodup : f.due.Nodup

structure Inv (f : UkFile) : Prop where
  counts : f.cnt.Counts f.strongRefs (f.weakRefs + f.entries.length)
  freed : f.freed = decide (f.strongRefs + (f.weakRefs + f.entries.length) = 0)
  misuse : f.misuse = false
  entries : f.entries.Nodup
  opened : f.strongRefs ≠ 0 → Open f
  closed : f.strongRefs = 0 → Closed f

theorem inv_init : Inv UkFile.init := by
  refine ⟨⟨rfl, rfl⟩, rfl, rfl, nodup_nil, fun _ => ⟨rfl, nodup_nil, fun e => ?_, rfl, rfl⟩, fun h => ?_⟩
  · exact ⟨fun h => absurd h not_mem_nil, fun h => absurd h not_mem_nil⟩
  · exact absurd h (by decide)

section
variable (h : Inv f) {n : Nat}
include h

private theorem Inv.finalizersOk : FinalizersOk f := by
  by_cases h0 : f.strongRefs = 0
  · obtain ⟨-, hran, hn⟩ := h.closed h0
    exact ⟨hran ▸ List.Perm.refl _, hran ▸ hn, h.misuse⟩
  · obtain ⟨-, -, -, hran, hdue⟩ := h.opened h0
    rw [← hdue] at hran
    refine ⟨hran ▸ List.Perm.refl _, ?_, h.misuse⟩
    rw [hran, hdue]
    exact nodup_nil

private theorem Inv.freed_false (hr : f.strongRefs + (f.weakRefs + f.entries.length) ≠ 0) : f.freed = false := by
  rw [h.freed, decide_eq_false hr]

private theorem step_acquire (hl : Legal f .acquire) (hs : Safe f .acquire) : Inv (step f .acquire) := by
  have hl : 1 ≤ f.strongRefs := hl
  have hs : f.strongRefs + f.weakRefs + f.entries.length < 2 ^ 32 - 1 := hs
  have hf := h.freed_false (by omega)
  have heq : step f .acquire = { f with cnt := ukSwrefcountAcquire f.cnt, strongRefs := f.strongRefs + 1 } := by
    simp only [step, ukFileAcquire, UkFile.access_eq hf]
  obtain ⟨h1, h2, h3, h4, h5⟩ := h.opened (by omega)
  rw [heq]
  refine ⟨h.counts.acquire (by omega), ?_, h.misuse, h.entries, fun _ => ⟨h1, h2, h3, h4, h5⟩, fun h0 => ?_⟩
  · dsimp only
    rw [hf, decide_eq_false (by omega)]
  · dsimp only at h0
    omega

private theorem step_acquireWeak (hl : Legal f .acquireWeak) (hs : Safe f .acquireWeak) :
    Inv (step f .acquireWeak) := by
  have hl : 1 ≤ f.strongRefs + f.weakRefs := hl
  have hs : f.strongRefs + f.weakRefs + f.entries.length < 2 ^ 32 - 1 := hs
  have hf := h.freed_false (by omega)
  have heq : step f .acquireWeak = { f with cnt := ukSwrefcountAcquireWeak f.cnt, weakRefs := f.weakRefs + 1 } := by
    simp only [step, ukFileAcquireWeak, UkFile.access_eq hf]
  rw [heq]
  refine ⟨?_, ?_, h.misuse, h.entries, fun h0 => ?_, fun h0 => ?_⟩
  · have := h.counts.acquireWeak (by omega)
    rwa [Nat.add_right_comm]
  · dsimp only
    rw [hf, decide_eq_false (by omega)]
  · obtain ⟨h1, h2, h3, h4, h5⟩ := h.opened h0
    exact ⟨h1, h2, h3, h4, h5⟩
  · obtain ⟨h1, h2, h3⟩ := h.closed h0
    exact ⟨h1, h2, h3⟩

private theorem step_releaseWeak (hl : Legal f .releaseWeak) : Inv (step f .releaseWeak) := by
  have hl : 1 ≤ f.weakRefs := hl
  have hf := h.freed_false (by omega)
  have hc : f.cnt.Counts f.strongRefs (f.weakRefs - 1 + f.entries.length + 1) := by
    have := h.counts
    rwa [show f.weakRefs + f.entries.length = f.weakRefs - 1 + f.entries.length + 1 by omega] at this
  obtain ⟨cnt, hcnt, heq⟩ := releaseWeak_eq hc hf
  simp only [step, heq]
  refine ⟨hcnt, rfl, h.misuse, h.entries, fun h0 => ?_, fun h0 => ?_⟩
  · obtain ⟨h1, h2, h3, h4, h5⟩ := h.opened h0
    exact ⟨h1, h2, h3, h4, h5⟩
  · obtain ⟨h1, h2, h3⟩ := h.closed h0
    exact ⟨h1, h2, h3⟩

private theorem strong_ne_zero (hl : 1 ≤ f.strongRefs) : f.cnt.strong ≠ 0 := by
  intro h0
  have := h.counts.strong
  rw [h0] at this
  simp at this
  omega

private theorem step_register (hl : Legal f (.register n)) : Inv (step f (.register n)) := by
  have hf := h.freed_false (by have := hl.1; omega)
  have hpos : f.strongRefs ≠ 0 := by
    have := hl.1
    omega
  obtain ⟨h1, h2, h3, h4, h5⟩ := h.opened hpos
  have heq : step f (.register n) =
    { f with fins := .plain n :: f.fins, registered := .plain n :: f.registered } := by
    simp only [step, ukFileFinalizerRegister, if_neg (strong_ne_zero h hl.1), UkFile.access_eq hf]
  rw [heq]
  refine ⟨h.counts, h.freed, h.misuse, h.entries, fun _ => ⟨?_, ?_, ?_, h4, h5⟩, fun h0 => absurd h0 hpos⟩
  · exact congrArg _ h1
  · exact nodup_cons.2 ⟨hl.2, h2⟩
  · intro e
    rw [← show _ ↔ e ∈ f.entries from h3 e, mem_cons]
    simp

private theorem step_unregister (hl : Legal f (.unregister n)) : Inv (step f (.unregister n)) := by
  have hl : 1 ≤ f.strongRefs + f.weakRefs := hl
  have hf := h.freed_false (by omega)
  simp only [step, finalizerUnregister_eq h.counts.strong hf]
  refine ⟨h.counts, h.freed, h.misuse, h.entries, fun h0 => ?_, fun h0 => ?_⟩
  · obtain ⟨h1, h2, h3, h4, h5⟩ := h.opened h0
    refine ⟨?_, h2.erase _, fun e => ?_, h4, h5⟩
    · rw [if_neg h0, h1]
    · rw [← show _ ↔ e ∈ f.entries from h3 e, h2.mem_erase_iff]
      simp
  · obtain ⟨h1, h2, h3⟩ := h.closed h0
    exact ⟨h1, h2, h3⟩

private theorem step_add {e : Nat} (hl : Legal f (.add e)) (hs : Safe f (.add e)) : Inv (step f (.add e)) := by
  obtain ⟨hl, hnew⟩ := hl
  have hs : f.strongRefs + f.weakRefs + f.entries.length < 2 ^ 32 - 1 := hs
  have hf := h.freed_false (by omega)
  have hpos : f.strongRefs ≠ 0 := by omega
  obtain ⟨h1, h2, h3, h4, h5⟩ := h.opened hpos
  have heq : step f (.add e) = { f with
      cnt := ukSwrefcountAcquireWeak f.cnt
      entries := e :: f.entries
      fins := .epoll e :: f.fins
      registered := .epoll e :: f.registered } := by
    have hst : (ukSwrefcountAcquireWeak f.cnt).strong ≠ 0 := strong_ne_zero h hl
    simp only [step, ukFileAcquireWeak, UkFile.access_eq hf, ukFileFinalizerRegister, if_neg hst]
    rw [UkFile.access_eq (f := { f with cnt := ukSwrefcountAcquireWeak f.cnt, entries := e :: f.entries }) hf]
  rw [heq]
  refine ⟨?_, ?_, h.misuse, nodup_cons.2 ⟨hnew, h.entries⟩, fun _ => ⟨?_, ?_, ?_, h4, h5⟩,
    fun h0 => absurd h0 hpos⟩
  · exact h.counts.acquireWeak (by omega)
  · dsimp only
    rw [hf, decide_eq_false (by omega)]
  · exact congrArg _ h1
  · exact nodup_cons.2 ⟨fun hm => hnew ((h3 e).1 hm), h2⟩
  · intro e'
    rw [mem_cons, mem_cons, h3 e']
    simp

private theorem step_del (e : Nat) : Inv (step f (.del e)) := by
  simp only [step]
  by_cases he : e ∈ f.entries
  · have hlen : (f.entries.erase e).length + 1 = f.entries.length := by
      have := length_erase_of_mem he
      have := length_pos_of_mem he
      omega
    have hf := h.freed_false (by omega)
    have hpos : f.strongRefs ≠ 0 := by
      intro h0
      rw [(h.closed h0).entries] at he
      exact absurd he not_mem_nil
    have hc : f.cnt.Counts f.strongRefs (f.weakRefs + (f.entries.erase e).length + 1) := by
      rw [Nat.add_assoc, hlen]
      exact h.counts
    obtain ⟨h1, h2, h3, h4, h5⟩ := h.opened hpos
    obtain ⟨cnt, hcnt, heq⟩ := epollEntryDel_eq hc hf
    rw [if_pos he, heq]
    refine ⟨hcnt, rfl, h.misuse, h.entries.erase e, fun _ => ⟨?_, h2.erase _, fun e' => ?_, h4, h5⟩,
      fun h0 => absurd h0 hpos⟩
    · rw [if_neg hpos, h1]
    · rw [h2.mem_erase_iff, h.entries.mem_erase_iff, h3 e']
      simp
  · rw [if_neg he]
    exact h

private theorem step_release (hl : Legal f .release) (hs : Safe f .release) : Inv (step f .release) := by
  have hl : 1 ≤ f.strongRefs := hl
  obtain ⟨hmore, hlast⟩ := hs
  have hf := h.freed_false (by omega)
  obtain ⟨h1, h2, h3, h4, h5⟩ := h.opened (by omega)
  simp only [step]
  split
  next hone =>
    have hc := h.counts
    rw [hone] at hc
    obtain ⟨cnt, hcnt, heq⟩ := release_last hc hf (by omega)
    have hfree : f.freed = decide (f.weakRefs + f.entries.length = 0) := by rw [hf, decide_eq_false (by omega)]
    obtain ⟨cnt', hcnt', hwalk⟩ := foldl_callFinalizer (f := { f with cnt := cnt, released := true }) (l := f.fins)
      hcnt hfree h.entries (h1 ▸ h2) (fun e => h1 ▸ h3 e)
    rw [heq, hwalk]
    refine ⟨hcnt', ?_, h.misuse, nodup_nil, fun h0 => absurd rfl h0, fun _ => ⟨rfl, ?_, h2⟩⟩
    · rw [length_nil, Nat.add_zero, Nat.zero_add]
    · rw [h4, h1, nil_append]
  next hone =>
    obtain ⟨k, hk⟩ : ∃ k, f.strongRefs = k + 2 := ⟨f.strongRefs - 2, by omega⟩
    have hc := h.counts
    rw [hk] at hc
    obtain ⟨cnt, hcnt, heq⟩ := release_strong hc hf (h1.trans (hmore hone))
    rw [heq]
    refine ⟨?_, ?_, h.misuse, h.entries, fun _ => ⟨h1, h2, h3, h4, h5⟩, fun h0 => ?_⟩
    · rw [hk]
      exact hcnt
    · dsimp only
      rw [hf, decide_eq_false (by omega)]
    · dsimp only at h0
      omega

/-- Every operation on a file keeps the invariant. -/
theorem Inv.step (op : Op) (hl : Legal f op) (hs : Safe f op) : Inv (Ukfile.step f op) := by
  cases op with
  | acquire => exact step_acquire h hl hs
  | release => exact step_release h hl hs
  | acquireWeak => exact step_acquireWeak h hl hs
  | releaseWeak => exact step_releaseWeak h hl
  | register n => exact step_register h hl
  | unregister n => exact step_unregister h hl
  | add e => exact step_add h hl hs
  | del e => exact step_del h e

end

/-- In every run whose steps are safe, the finalizers run exactly once, with the last strong reference, and nothing is
accessed after it was freed. -/
theorem finalizersOk_of_run {ops : List Op} (hl : Meets step Legal UkFile.init ops)
    (hs : Meets step Safe UkFile.init ops) : Always step FinalizersOk UkFile.init ops :=
  (hl.and hs).always (I := Inv) (fun _ op h hop => h.step op hop.1 hop.2) (fun _ h => h.finalizersOk) inv_init

theorem finalizersOk_close : (run step UkFile.init [.register 7, .add 1, .release]).ran = [.epoll 1, .plain 7] ∧
    Always step FinalizersOk UkFile.init [.register 7, .add 1, .release] :=
  ⟨by decide, finalizersOk_of_run ⟨⟨by decide, by decide⟩, ⟨by decide, by decide⟩, by decide, trivial⟩
    ⟨trivial, show 1 < 2 ^ 32 - 1 by decide, ⟨fun h => absurd rfl h, by decide⟩, trivial⟩⟩

/-- A finalizer runs while there is a strong reference, and the file is accessed after it was freed. -/
theorem finalizers_early : (Meets step Legal UkFile.init [.register 7, .acquire, .release] ∧
      ¬ Always step FinalizersOk UkFile.init [.register 7, .acquire, .release]) ∧
    Meets step Legal UkFile.init [.release] ∧ ¬ Always step FinalizersOk UkFile.init [.release] := by
  refine ⟨⟨⟨⟨by decide, by decide⟩, by decide, by decide, trivial⟩, fun h => ?_⟩, ⟨by decide, trivial⟩, fun h => ?_⟩
  · exact absurd h.last.ran.length_eq (by decide)
  · exact absurd h.last.misuse (by decide)

end Unikraft.Ukfile
