import Unikraft.Fdtab.Table
import Unikraft.Lib.Lists

/-!
# Descriptor tables count references exactly

`World` has the initial table and its copies, the open file descriptions, and for each description the number of
references handed out and not released. `World.view` is what the tables mean, and `Call` says what a call returns and
does in these terms.

The counters have 32 bits: `Fits` says that no description gets more references than they can count.
-/

namespace Unikraft.Fdtab

open Function (update update_of_ne update_self)
open List Runs

structure World where
  tabs : List UkFmap
  files : Files
  handed : BitVec 64 → Nat

/-- Each call names the table that is active. `newDesc` is `uk_ofile_new` with the address it returns, and `duplicate`
has the contents of the memory allocated for the copy, if there is any. -/
inductive Op where
  | newDesc (p : BitVec 64)
  | release (p : BitVec 64)
  | openDesc (t : Nat) (of : BitVec 64) (mode : BitVec 32)
  | get (t : Nat) (fd : Int)
  | setflags (t : Nat) (fd : Int) (flags : BitVec 32)
  | getflags (t : Nat) (fd : Int)
  | close (t : Nat) (fd : Int)
  | dup (t : Nat) (oldfd : Int)
  | dupMin (t : Nat) (oldfd : Int) (min flags : BitVec 32)
  | dup2 (t : Nat) (oldfd newfd : Int)
  | dup3 (t : Nat) (oldfd newfd : Int) (flags : BitVec 32)
  | cleanup (t : Nat) (all : Bool)
  | duplicate (t : Nat) (mem : Option (Words × (Nat → BitVec 64)))

inductive Ret where
  | int (r : Except Errno Int)
  | file (p : BitVec 64)
  | tab (t : Option Nat)

def World.call (w : World) (t : Nat) (f : UkFmap → Files → Option (Except Errno Int × UkFmap × Files)) :
    Option (Ret × World) := do
  let m ← w.tabs[t]?
  let (r, m, fs) ← f m w.files
  some (.int r, { w with tabs := w.tabs.set t m, files := fs })

section
variable (n : Nat)

def exec (w : World) : Op → Option (Ret × World)
  | .newDesc p =>
    some (.file p, { w with
      files := ⟨update w.files.alive p true, update w.files.refcnt p 1⟩
      handed := bump w.handed p })
  | .release p => do
    let fs ← fileRel w.files p
    some (.int (.ok 0), { w with files := fs, handed := drop w.handed p })
  | .openDesc t of mode => do
    let m ← w.tabs[t]?
    let (r, m) ← ukFdtabOpenDesc n m of mode
    some (.int r, { w with
      tabs := w.tabs.set t m
      handed := match r with
        | .ok _ => drop w.handed of
        | .error _ => w.handed })
  | .get t fd => do
    let m ← w.tabs[t]?
    let (p, m, fs) ← ukFdtabGet m w.files fd
    some (.file p, ⟨w.tabs.set t m, fs, if p ≠ 0 then bump w.handed p else w.handed⟩)
  | .setflags t fd flags => w.call t fun m fs => (ukFdtabSetflags m fd flags).map fun (r, m) => (r, m, fs)
  | .getflags t fd => w.call t fun m fs => (ukFdtabGetflags m fd).map fun r => (r, m, fs)
  | .close t fd => w.call t fun m fs => ukSysClose m fs fd
  | .dup t oldfd => w.call t fun m fs => ukSysDup n m fs oldfd
  | .dupMin t oldfd min flags => w.call t fun m fs => ukSysDupMin n m fs oldfd min flags
  | .dup2 t oldfd newfd => w.call t fun m fs => ukSysDup2 n m fs oldfd newfd
  | .dup3 t oldfd newfd flags => w.call t fun m fs => ukSysDup3 n m fs oldfd newfd flags
  | .cleanup t all => w.call t fun m fs => (fdtabCleanup n m fs all).map fun (m, fs) => (.ok 0, m, fs)
  | .duplicate t mem => do
    let m ← w.tabs[t]?
    match mem with
    | none => some (.tab none, w)
    | some (bitmap, map) =>
      let (m, fs, copy) ← fdtabDuplicate n m w.files bitmap map
      some (.tab (some w.tabs.length), { w with tabs := w.tabs.set t m ++ [copy], files := fs })

def step (w : World) (op : Op) : World :=
  match exec n w op with
  | some (_, w') => w'
  | none => w

def World.init : World where
  tabs := [ukFmapInit ⟨⟨fun _ => 0, n⟩, fun _ => 0⟩]
  files := ⟨fun _ => false, fun _ => 0⟩
  handed := fun _ => 0

end

/-! ### What a call should do -/

structure Descs where
  tabs : List Tab
  handed : BitVec 64 → Nat

variable (n : Nat) (d : Descs)

/-- The slots over all tables and the references handed out. -/
def Descs.refs (p : BitVec 64) : Nat := (d.tabs.map fun tab => tab.slots n p).sum + d.handed p

def UkFmap.tab (m : UkFmap) : Tab := fun i =>
  if i < n ∧ m.map i ≠ 0 then
    some ((fdtabDecode (m.map i)).p, decide ((fdtabDecode (m.map i)).flags &&& UK_FDTAB_CLOEXEC ≠ 0))
  else none

def World.view (w : World) : Descs := ⟨w.tabs.map (UkFmap.tab n), w.handed⟩

inductive Fails (n : Nat) (d : Descs) : Op → Errno → Prop where
  | openDesc {t p mode tab} (ht : d.tabs[t]? = some tab) (h : ∀ i < n, tab i ≠ none) :
      Fails n d (.openDesc t p mode) .ENFILE
  | setflagsInval {t fd flags} (h : flags &&& ~~~O_CLOEXEC ≠ 0) : Fails n d (.setflags t fd flags) .EINVAL
  | setflagsBadf {t fd flags tab} (ht : d.tabs[t]? = some tab) (h : tab.at fd = none) :
      Fails n d (.setflags t fd flags) .EBADF
  | getflags {t fd tab} (ht : d.tabs[t]? = some tab) (h : tab.at fd = none) : Fails n d (.getflags t fd) .EBADF
  | close {t fd tab} (ht : d.tabs[t]? = some tab) (h : tab.at fd = none) : Fails n d (.close t fd) .EBADF
  | dupMinBadf {t fd min flags tab} (ht : d.tabs[t]? = some tab) (h : tab.at fd = none) :
      Fails n d (.dupMin t fd min flags) .EBADF
  | dupMinInval {t fd min flags} (h : flags &&& ~~~O_CLOEXEC ≠ 0) : Fails n d (.dupMin t fd min flags) .EINVAL
  | dupMinFull {t fd flags} {min : BitVec 32} {tab : Tab} {s} (ht : d.tabs[t]? = some tab) (hs : tab.at fd = some s)
      (h : min.toInt < 0 ∨ ∀ i : Nat, i < n → min.toInt ≤ i → tab i ≠ none) :
          Fails n d (.dupMin t fd min flags) .ENFILE
  | dup {t fd e} (h : Fails n d (.dupMin t fd 0 0) e) : Fails n d (.dup t fd) e
  | dup3Same {t fd flags} : Fails n d (.dup3 t fd fd flags) .EINVAL
  | dup3Badf {t flags tab} {oldfd newfd : Int} (ht : d.tabs[t]? = some tab)
      (h : tab.at oldfd = none ∨ newfd < 0 ∨ newfd ≥ n) : Fails n d (.dup3 t oldfd newfd flags) .EBADF
  | dup3Inval {t oldfd newfd flags} (h : flags &&& ~~~O_CLOEXEC ≠ 0) : Fails n d (.dup3 t oldfd newfd flags) .EINVAL
  | dup2Same {t fd tab} (ht : d.tabs[t]? = some tab) (h : tab.at fd = none) : Fails n d (.dup2 t fd fd) .EBADF
  | dup2 {t oldfd newfd e} (hne : oldfd ≠ newfd) (h : Fails n d (.dup3 t oldfd newfd 0) e) :
      Fails n d (.dup2 t oldfd newfd) e

def Descs.set (t : Nat) (tab : Tab) : Descs := { d with tabs := d.tabs.set t tab }

inductive Call (n : Nat) (d : Descs) : Op → Ret → Descs → Prop where
  | newDesc {p} : Call n d (.newDesc p) (.file p) { d with handed := bump d.handed p }
  | release {p} : Call n d (.release p) (.int (.ok 0)) { d with handed := drop d.handed p }
  | openDesc {t p mode} {tab : Tab} {i : Nat} (ht : d.tabs[t]? = some tab) (hi : tab.Lowest n 0 i) :
      Call n d (.openDesc t p mode) (.int (.ok i))
        ⟨d.tabs.set t (update tab i (some (p, decide (mode &&& O_CLOEXEC ≠ 0)))), drop d.handed p⟩
  | get {t fd} {tab : Tab} {p c} (ht : d.tabs[t]? = some tab) (h : tab.at fd = some (p, c)) :
      Call n d (.get t fd) (.file p) { d with handed := bump d.handed p }
  | getNone {t fd} {tab : Tab} (ht : d.tabs[t]? = some tab) (h : tab.at fd = none) : Call n d (.get t fd) (.file 0) d
  | setflags {t flags} {i : Nat} {tab : Tab} {p c} (ht : d.tabs[t]? = some tab) (hf : flags &&& ~~~O_CLOEXEC = 0)
      (h : tab i = some (p, c)) :
      Call n d (.setflags t i flags) (.int (.ok 0)) (d.set t (update tab i (some (p, decide (flags ≠ 0)))))
  | getflags {t fd} {tab : Tab} {p c} (ht : d.tabs[t]? = some tab) (h : tab.at fd = some (p, c)) :
      Call n d (.getflags t fd) (.int (.ok (if c then O_CLOEXEC.toNat else 0))) d
  | close {t} {i : Nat} {tab : Tab} {p c} (ht : d.tabs[t]? = some tab) (h : tab i = some (p, c)) :
      Call n d (.close t i) (.int (.ok 0)) (d.set t (update tab i none))
  | dupMin {t fd min flags} {j : Nat} {tab : Tab} {p c} (ht : d.tabs[t]? = some tab) (hf : flags &&& ~~~O_CLOEXEC = 0)
      (h : tab.at fd = some (p, c)) (h0 : 0 ≤ min.toInt) (hj : tab.Lowest n min.toInt j) :
      Call n d (.dupMin t fd min flags) (.int (.ok j)) (d.set t (update tab j (some (p, decide (flags ≠ 0)))))
  | dup {t fd r d'} (h : Call n d (.dupMin t fd 0 0) r d') : Call n d (.dup t fd) r d'
  | dup3 {t fd flags} {j : Nat} {tab : Tab} {p c} (ht : d.tabs[t]? = some tab) (hf : flags &&& ~~~O_CLOEXEC = 0)
      (h : tab.at fd = some (p, c)) (hne : fd ≠ j) (hj : j < n) :
      Call n d (.dup3 t fd j flags) (.int (.ok j)) (d.set t (update tab j (some (p, decide (flags ≠ 0)))))
  | dup2Same {t fd} {tab : Tab} {p c} (ht : d.tabs[t]? = some tab) (h : tab.at fd = some (p, c)) :
      Call n d (.dup2 t fd fd) (.int (.ok fd)) d
  | dup2 {t oldfd newfd r d'} (hne : oldfd ≠ newfd) (h : Call n d (.dup3 t oldfd newfd 0) r d') :
      Call n d (.dup2 t oldfd newfd) r d'
  | cleanup {t all} {tab : Tab} (ht : d.tabs[t]? = some tab) :
      Call n d (.cleanup t all) (.int (.ok 0)) (d.set t (tab.cleaned all))
  | duplicate {t mem tab} (ht : d.tabs[t]? = some tab) :
      Call n d (.duplicate t (some mem)) (.tab (some d.tabs.length)) { d with tabs := d.tabs ++ [tab] }
  | duplicateNone {t} : Call n d (.duplicate t none) (.tab none) d
  | error {op e} (h : Fails n d op e) : Call n d op (.int (.error e)) d

/-- The active table exists, references are used by their holders, and an allocated address is aligned and new. -/
def Legal (w : World) : Op → Prop
  | .newDesc p => p ≠ 0 ∧ p &&& FLAG_MASK = 0 ∧ w.files.alive p = false
  | .release p => 0 < w.handed p
  | .openDesc t of _ => t < w.tabs.length ∧ 0 < w.handed of
  | .get t _ | .setflags t _ _ | .getflags t _ | .close t _ | .dup t _ | .dupMin t _ _ _ | .dup2 t _ _ | .dup3 t _ _ _
  | .cleanup t _ | .duplicate t _ => t < w.tabs.length

def Fits : Op → Prop
  | .get _ _ | .dup _ _ | .dupMin _ _ _ _ | .dup2 _ _ _ | .dup3 _ _ _ _ => ∀ p, d.refs n p < 2 ^ 32 - 1
  | .duplicate t _ => ∀ tab, d.tabs[t]? = some tab → ∀ p, d.refs n p + tab.slots n p ≤ 2 ^ 32 - 1
  | _ => True

/-- A counter is the number of slots and references handed out, and a description is freed when there are none. -/
def CountsOk (w : World) : Prop := w.files.Counts ((w.view n).refs n)

def Unchanged (w w' : World) : Prop :=
  w'.view n = w.view n ∧ w'.files.alive = w.files.alive ∧ ∀ p, w.files.alive p = true →
    w'.files.refcnt p = w.files.refcnt p

/-! ### The tables of a world -/

structure World.Rep (n : Nat) (w : World) (d : Descs) : Prop where
  length : d.tabs.length = w.tabs.length
  tab : ∀ (t : Nat) (m : UkFmap) (tab : Tab), w.tabs[t]? = some m → d.tabs[t]? = some tab →
    (m.Is n fun i => slotEntry (tab i)) ∧ tab.Ok n
  handed : d.handed = w.handed
  handedOk : ∀ p, 0 < d.handed p → p ≠ 0 ∧ p &&& FLAG_MASK = 0
  counts : w.files.Counts (d.refs n)

def Descs.others (t : Nat) (p : BitVec 64) : Nat :=
  ((d.tabs.eraseIdx t).map fun tab => tab.slots n p).sum

variable {w : World} {d : Descs} {m m' : UkFmap} {tab : Tab} {p : BitVec 64} {fs' : Files} {op : Op}

section
variable {n t : Nat} {handed' : BitVec 64 → Nat}

section
variable (ht : d.tabs[t]? = some tab)
include ht

private theorem Descs.refs_eq : d.refs n = fun p => tab.slots n p + (d.others n t p + d.handed p) := by
  funext p
  unfold Descs.refs Descs.others
  rw [Lists.sum_eraseIdx ht]
  omega

private theorem Descs.set_tabs : d.tabs.set t tab = d.tabs := by
  obtain ⟨h, rfl⟩ := List.getElem?_eq_some_iff.1 ht
  exact set_getElem_self h

private theorem Descs.set_self : d.set t tab = d := by
  unfold Descs.set
  rw [Descs.set_tabs ht]

end

private theorem Descs.refs_bump : Descs.refs n { d with handed := bump d.handed p } = bump (d.refs n) p :=
  bump_add_right

private theorem World.Rep.table (h : w.Rep n d) (ht : t < w.tabs.length) :
    ∃ m tab, w.tabs[t]? = some m ∧ d.tabs[t]? = some tab ∧
      Fdtab.Rep n m w.files tab fun p => d.others n t p + d.handed p := by
  have hm : w.tabs[t]? = some w.tabs[t] := List.getElem?_eq_getElem ht
  have ht' : t < d.tabs.length := by
    rw [h.length]
    exact ht
  have htab : d.tabs[t]? = some d.tabs[t] := List.getElem?_eq_getElem ht'
  obtain ⟨h1, h2⟩ := h.tab t _ _ hm htab
  refine ⟨_, _, hm, htab, h1, h2, ?_⟩
  have := h.counts
  rwa [Descs.refs_eq htab] at this

private theorem World.Rep.set (h : w.Rep n d) (ht : t < w.tabs.length) {tab' : Tab}
    (h' : Fdtab.Rep n m' fs' tab' fun p => d.others n t p + handed' p)
    (hok : ∀ p, 0 < handed' p → p ≠ 0 ∧ p &&& FLAG_MASK = 0) :
    World.Rep n ⟨w.tabs.set t m', fs', handed'⟩ ⟨d.tabs.set t tab', handed'⟩ where
  length := by
    rw [length_set, length_set]
    exact h.length
  tab t' m tab hm htab := by
    dsimp only at hm htab
    by_cases htt : t' = t
    · subst htt
      rw [List.getElem?_set_self ht] at hm
      rw [List.getElem?_set_self (by rw [h.length]; exact ht)] at htab
      cases hm
      cases htab
      exact ⟨h'.map, h'.ok⟩
    · rw [List.getElem?_set_ne (Ne.symm htt)] at hm htab
      exact h.tab t' m tab hm htab
  handed := rfl
  handedOk := hok
  counts := by
    have hset : (d.tabs.set t tab')[t]? = some tab' := List.getElem?_set_self (by rw [h.length]; exact ht)
    rw [Descs.refs_eq (d := ⟨d.tabs.set t tab', handed'⟩) hset]
    unfold Descs.others
    rw [eraseIdx_set_eq]
    exact h'.counts

private theorem World.Rep.set_same (h : w.Rep n d) (ht : t < w.tabs.length) (htab : d.tabs[t]? = some tab)
    (h' : Fdtab.Rep n m' fs' tab fun p => d.others n t p + handed' p)
    (hok : ∀ p, 0 < handed' p → p ≠ 0 ∧ p &&& FLAG_MASK = 0) :
    World.Rep n ⟨w.tabs.set t m', fs', handed'⟩ { d with handed := handed' } := by
  have hset := h.set ht h' hok
  rwa [Descs.set_tabs htab] at hset

private theorem UkFmap.tab_eq (hm : m.Is n fun i => slotEntry (tab i)) (hok : tab.Ok n) : m.tab n = tab := by
  funext i
  unfold UkFmap.tab
  cases hs : tab i with
  | none =>
    refine if_neg ?_
    rintro ⟨hi, hne⟩
    rw [hm.map i hi, hs] at hne
    exact hne rfl
  | some s =>
    obtain ⟨p, c⟩ := s
    obtain ⟨hi, hp, ha⟩ := hok i p c hs
    rw [hm.map i hi, hs, if_pos ⟨hi, entry_ne_zero hp⟩, decode_eq ha]
    simp only [flagOf_and, Bool.decide_eq_true]

private theorem World.Rep.view_eq (h : w.Rep n d) : w.view n = d := by
  have htabs : w.tabs.map (UkFmap.tab n) = d.tabs := by
    refine ext_getElem? fun t => ?_
    rw [List.getElem?_map]
    by_cases ht : t < w.tabs.length
    · obtain ⟨m, tab, hm, htab, hr⟩ := h.table ht
      rw [hm, htab, Option.map_some, UkFmap.tab_eq hr.map hr.ok]
    · rw [List.getElem?_eq_none (Nat.not_lt.1 ht), List.getElem?_eq_none (by rw [h.length]; exact Nat.not_lt.1 ht)]
      rfl
  unfold World.view
  rw [htabs, ← h.handed]

private theorem World.Rep.countsOk (h : w.Rep n d) : CountsOk n w := by
  unfold CountsOk
  rw [h.view_eq]
  exact h.counts

/-- At the start there is one empty table. -/
theorem World.rep_init : (World.init n).Rep n ⟨[fun _ => none], fun _ => 0⟩ where
  length := rfl
  tab t m tab hm htab := by
    cases t with
    | zero =>
      cases hm
      cases htab
      exact ⟨ukFmapInit_is, fun i p c h => by cases h⟩
    | succ t => cases hm
  handed := rfl
  handedOk p hp := absurd hp (lt_irrefl 0)
  counts := by
    have hz : ∀ p, Descs.refs n ⟨[fun _ => none], fun _ => 0⟩ p = 0 := fun p => by
      have hc : Tab.slots n (fun _ => none) p = 0 := Nat.count_iff_forall_not.2 fun i _ => by simp
      unfold Descs.refs
      rw [map_singleton, hc]
      rfl
    refine ⟨fun p => ?_, fun p hp => ?_⟩
    · rw [hz]
      rfl
    · rw [hz] at hp
      exact absurd hp (lt_irrefl 0)

end

def Does (w : World) (d : Descs) (op : Op) : Prop :=
  ∃ r w' d', exec n w op = some (r, w') ∧ w'.Rep n d' ∧ Call n d op r d'

section
variable {n t : Nat} {tab' : Tab} {r : Except Errno Int}
    {f : UkFmap → Files → Option (Except Errno Int × UkFmap × Files)}
  {fd : Int} {mode min flags : BitVec 32}

section
variable (h : w.Rep n d)
include h

private theorem Does.of_call (ht : t < w.tabs.length) (hm : w.tabs[t]? = some m) (hexec : exec n w op = w.call t f)
    (hf : f m w.files = some (r, m', fs')) (h' : Rep n m' fs' tab' fun p => d.others n t p + d.handed p)
    (hcall : Call n d op (.int r) (d.set t tab')) : Does n w d op := by
  refine ⟨.int r, ⟨w.tabs.set t m', fs', w.handed⟩, d.set t tab', ?_, ?_, hcall⟩
  · rw [hexec]
    unfold World.call
    rw [hm]
    simp only [bind, Option.bind]
    rw [hf]
  · have hset := h.set ht h' h.handedOk
    rw [← h.handed]
    exact hset

private theorem Does.of_same (ht : t < w.tabs.length) (hm : w.tabs[t]? = some m) (htab : d.tabs[t]? = some tab)
    (hexec : exec n w op = w.call t f) (hf : f m w.files = some (r, m', fs'))
    (h' : Rep n m' fs' tab fun p => d.others n t p + d.handed p) (hcall : Call n d op (.int r) d) :
    Does n w d op := by
  refine Does.of_call h ht hm hexec hf h' ?_
  rw [Descs.set_self htab]
  exact hcall

private theorem does_newDesc (hl : Legal w (.newDesc p)) : Does n w d (.newDesc p) := by
  obtain ⟨hp, ha, hdead⟩ := hl
  have h0 : d.refs n p = 0 := by
    have := (h.counts.alive p).symm.trans hdead
    simpa using this
  refine ⟨_, _, { d with handed := bump d.handed p }, rfl, ⟨h.length, h.tab, ?_, ?_, ?_⟩, .newDesc⟩
  · rw [h.handed]
  · intro q hq
    by_cases hqp : q = p
    · rw [hqp]
      exact ⟨hp, ha⟩
    · dsimp only at hq
      rw [bump_of_ne hqp] at hq
      exact h.handedOk q hq
  · rw [Descs.refs_bump]
    refine ⟨fun q => ?_, fun q hq => ?_⟩
    · dsimp only
      by_cases hqp : q = p
      · rw [hqp, update_self, bump_self, decide_eq_true (by omega)]
      · rw [update_of_ne hqp, bump_of_ne hqp, h.counts.alive]
    · dsimp only
      by_cases hqp : q = p
      · rw [hqp, update_self, bump_self, h0]
        rfl
      · rw [bump_of_ne hqp] at hq ⊢
        rw [update_of_ne hqp, h.counts.refcnt q hq]

private theorem handedOk_drop (q : BitVec 64) (hq : 0 < drop d.handed p q) : q ≠ 0 ∧ q &&& FLAG_MASK = 0 := by
  refine h.handedOk q (lt_of_lt_of_le hq ?_)
  unfold drop
  by_cases hqp : q = p
  · rw [hqp, update_self]
    exact Nat.sub_le _ _
  · rw [update_of_ne hqp]

private theorem does_release (hl : Legal w (.release p)) : Does n w d (.release p) := by
  have hpos : 0 < d.handed p := by
    rw [h.handed]
    exact hl
  have hrefs : d.refs n = bump (Descs.refs n { d with handed := drop d.handed p }) p := by
    rw [← Descs.refs_bump]
    rw [bump_drop hpos]
  have hc := h.counts
  rw [hrefs] at hc
  obtain ⟨fs', hrel, hfs'⟩ := fileRel_spec hc
  refine ⟨.int (.ok 0), { w with files := fs', handed := drop w.handed p }, { d with handed := drop d.handed p }, ?_,
      ?_,
    .release⟩
  · simp only [exec, hrel, bind, Option.bind]
  · refine ⟨h.length, h.tab, ?_, handedOk_drop h, hfs'⟩
    rw [h.handed]

end

private theorem does_openDesc (hn : n < 2 ^ 31) (h : w.Rep n d) (hl : Legal w (.openDesc t p mode)) :
    Does n w d (.openDesc t p mode) := by
  obtain ⟨m, tab, hm, htab, hr⟩ := h.table hl.1
  have hpos : 0 < d.handed p := by
    rw [h.handed]
    exact hl.2
  obtain ⟨hp, ha⟩ := h.handedOk p hpos
  rcases openDesc_spec hr hn hp ha (Nat.add_pos_right _ hpos) mode with
    ⟨i, m', hlow, hopen, hr'⟩ | ⟨hfull, hopen⟩
  · refine ⟨.int (.ok i), ⟨w.tabs.set t m', w.files, drop w.handed p⟩, _, ?_, ?_, .openDesc htab hlow⟩
    · simp only [exec, hm, hopen, bind, Option.bind]
    · rw [← drop_add_right hpos] at hr'
      rw [← h.handed]
      exact h.set hl.1 hr' (handedOk_drop h)
  · refine ⟨.int (.error .ENFILE), ⟨w.tabs.set t m, w.files, w.handed⟩, d, ?_, ?_, .error (.openDesc htab hfull)⟩
    · simp only [exec, hm, hopen, bind, Option.bind]
    · rw [← h.handed]
      exact h.set_same hl.1 htab hr h.handedOk

private theorem fits_table (htab : d.tabs[t]? = some tab) (hf : ∀ p, d.refs n p < 2 ^ 32 - 1) (p : BitVec 64) :
    tab.slots n p + (d.others n t p + d.handed p) < 2 ^ 32 - 1 := by
  have := hf p
  rwa [Descs.refs_eq htab] at this

section
variable (h : w.Rep n d) (ht : t < w.tabs.length)

include h ht

private theorem does_get (hf : ∀ p, d.refs n p < 2 ^ 32 - 1) : Does n w d (.get t fd) := by
  obtain ⟨m, tab, hm, htab, hr⟩ := h.table ht
  cases hs : tab.at fd with
  | none =>
    refine ⟨.file 0, ⟨w.tabs.set t m, w.files, w.handed⟩, d, ?_, ?_, .getNone htab hs⟩
    · simp only [exec, ukFdtabGet, hm, fdtabGet_none hr hs, bind, Option.bind]
      rw [if_neg (not_not.2 rfl)]
    · rw [← h.handed]
      exact h.set_same ht htab hr h.handedOk
  | some s =>
    obtain ⟨p, c⟩ := s
    obtain ⟨i, rfl, hi⟩ := Tab.at_eq_some hs
    obtain ⟨-, hp, ha⟩ := hr.ok i p c hi
    have hlt := hf p
    rw [Descs.refs_eq htab] at hlt
    obtain ⟨m', fs', hget, hr'⟩ := fdtabGet_some hr hi hlt
    rw [← bump_add_right] at hr'
    refine ⟨.file p, ⟨w.tabs.set t m', fs', bump w.handed p⟩, { d with handed := bump d.handed p }, ?_, ?_,
        .get htab hs⟩
    · simp only [exec, ukFdtabGet, hm, hget, bind, Option.bind]
      rw [if_pos hp]
    · rw [← h.handed]
      refine h.set_same ht htab hr' fun q hq => ?_
      by_cases hqp : q = p
      · rw [hqp]
        exact ⟨hp, ha⟩
      · rw [bump_of_ne hqp] at hq
        exact h.handedOk q hq

private theorem does_setflags : Does n w d (.setflags t fd flags) := by
  obtain ⟨m, tab, hm, htab, hr⟩ := h.table ht
  have hexec : exec n w (.setflags t fd flags) = w.call t fun m fs => (ukFdtabSetflags m fd flags).map
    fun (r, m) => (r, m, fs) := rfl
  by_cases hf : flags &&& ~~~O_CLOEXEC = 0
  · cases hs : tab.at fd with
    | none =>
      refine Does.of_same h ht hm htab hexec ?_ hr (.error (.setflagsBadf htab hs))
      simp only [ukFdtabSetflags, if_neg (not_not.2 hf), (hr.at_none hs).2.2]
      rfl
    | some s =>
      obtain ⟨i, rfl, hi⟩ := Tab.at_eq_some hs
      obtain ⟨m', hset, hr'⟩ := setflags_spec hr hf hi
      refine Does.of_call h ht hm hexec ?_ hr' (.setflags htab hf hi)
      rw [hset]
      rfl
  · refine Does.of_same h ht hm htab hexec ?_ hr (.error (.setflagsInval hf))
    rw [ukFdtabSetflags, if_pos hf]
    rfl

private theorem does_getflags : Does n w d (.getflags t fd) := by
  obtain ⟨m, tab, hm, htab, hr⟩ := h.table ht
  have hexec : exec n w (.getflags t fd) = w.call t fun m fs => (ukFdtabGetflags m fd).map fun r => (r, m, fs) := rfl
  cases hs : tab.at fd with
  | none =>
    refine Does.of_same h ht hm htab hexec ?_ hr (.error (.getflags htab hs))
    simp only [ukFdtabGetflags, (hr.at_none hs).1]
    rfl
  | some s =>
    obtain ⟨i, rfl, hi⟩ := Tab.at_eq_some hs
    refine Does.of_same h ht hm htab hexec ?_ hr (.getflags htab hs)
    rw [getflags_spec hr hi]
    rfl

private theorem does_close : Does n w d (.close t fd) := by
  obtain ⟨m, tab, hm, htab, hr⟩ := h.table ht
  have hexec : exec n w (.close t fd) = w.call t fun m fs => ukSysClose m fs fd := rfl
  cases hs : tab.at fd with
  | none =>
    refine Does.of_same h ht hm htab hexec ?_ hr (.error (.close htab hs))
    simp only [ukSysClose, (hr.at_none hs).2.1]
    rfl
  | some s =>
    obtain ⟨i, rfl, hi⟩ := Tab.at_eq_some hs
    obtain ⟨m', fs', hclose, hr'⟩ := close_spec hr hi
    exact Does.of_call h ht hm hexec hclose hr' (.close htab hi)

private theorem does_dupMin (hn : n < 2 ^ 31) (hf : ∀ p, d.refs n p < 2 ^ 32 - 1)
    (fd : Int) (min flags : BitVec 32) : Does n w d (.dupMin t fd min flags) := by
  obtain ⟨m, tab, hm, htab, hr⟩ := h.table ht
  have hexec : exec n w (.dupMin t fd min flags) = w.call t fun m fs => ukSysDupMin n m fs fd min flags := rfl
  by_cases h0 : fd < 0
  · have hs : tab.at fd = none := if_neg (by omega)
    refine Does.of_same h ht hm htab hexec ?_ hr (.error (.dupMinBadf htab hs))
    exact if_pos h0
  by_cases hflags : flags &&& ~~~O_CLOEXEC = 0
  · cases hs : tab.at fd with
    | none =>
      refine Does.of_same h ht hm htab hexec ?_ hr (.error (.dupMinBadf htab hs))
      simp only [ukSysDupMin, if_neg h0, if_neg (not_not.2 hflags), fdtabGet_none hr hs]
      rfl
    | some s =>
      obtain ⟨i, rfl, hi⟩ := Tab.at_eq_some hs
      rcases dupMin_spec hr hn hflags hi (fits_table htab hf s.1) min with
        ⟨j, m', fs', hlow, hmin, hdup, hr'⟩ | ⟨hfull, m', fs', hdup, hr'⟩
      · exact Does.of_call h ht hm hexec hdup hr' (.dupMin htab hflags hs hmin hlow)
      · exact Does.of_same h ht hm htab hexec hdup hr' (.error (.dupMinFull htab hs hfull))
  · refine Does.of_same h ht hm htab hexec ?_ hr (.error (.dupMinInval hflags))
    exact (if_neg h0).trans (if_pos hflags)

private theorem does_dup (hn : n < 2 ^ 31) (hf : ∀ p, d.refs n p < 2 ^ 32 - 1) : Does n w d (.dup t fd) := by
  obtain ⟨r, w', d', hexec, hr', hcall⟩ := does_dupMin h ht hn hf fd 0 0
  exact ⟨r, w', d', hexec, hr', .dup hcall⟩

private theorem does_dup3 (hf : ∀ p, d.refs n p < 2 ^ 32 - 1) (fd newfd : Int) (flags : BitVec 32) :
    Does n w d (.dup3 t fd newfd flags) := by
  obtain ⟨m, tab, hm, htab, hr⟩ := h.table ht
  have hexec : exec n w (.dup3 t fd newfd flags) = w.call t fun m fs => ukSysDup3 n m fs fd newfd flags := rfl
  by_cases hne : fd = newfd
  · subst hne
    refine Does.of_same h ht hm htab hexec ?_ hr (.error .dup3Same)
    exact if_pos rfl
  by_cases hrange : fd < 0 ∨ fd ≥ n ∨ newfd < 0 ∨ newfd ≥ n
  · have hbad : tab.at fd = none ∨ newfd < 0 ∨ newfd ≥ n := by
      rcases hrange with h0 | hge | hnew
      · exact .inl (if_neg (by omega))
      · refine .inl ?_
        cases hs : tab.at fd with
        | none => rfl
        | some s =>
          obtain ⟨i, rfl, hi⟩ := Tab.at_eq_some hs
          have := (hr.ok i s.1 s.2 hi).1
          omega
      · exact .inr hnew
    refine Does.of_same h ht hm htab hexec ?_ hr (.error (.dup3Badf htab hbad))
    exact (if_neg hne).trans (if_pos hrange)
  by_cases hflags : flags &&& ~~~O_CLOEXEC = 0
  · cases hs : tab.at fd with
    | none =>
      refine Does.of_same h ht hm htab hexec ?_ hr (.error (.dup3Badf htab (.inl hs)))
      simp only [ukSysDup3, if_neg hne, if_neg hrange, if_neg (not_not.2 hflags), fdtabGet_none hr hs]
      rfl
    | some s =>
      obtain ⟨i, rfl, hi⟩ := Tab.at_eq_some hs
      obtain ⟨j, rfl⟩ := Int.eq_ofNat_of_zero_le (by omega : 0 ≤ newfd)
      obtain ⟨m', fs', hdup, hr'⟩ :=
        dup3_spec hr hflags hi (by omega : j < n) (by omega) (fits_table htab hf s.1)
      exact Does.of_call h ht hm hexec hdup hr' (.dup3 htab hflags hs hne (by omega))
  · refine Does.of_same h ht hm htab hexec ?_ hr (.error (.dup3Inval hflags))
    exact ((if_neg hne).trans (if_neg hrange)).trans (if_pos hflags)

private theorem does_dup2 {newfd : Int} (hf : ∀ p, d.refs n p < 2 ^ 32 - 1) : Does n w d (.dup2 t fd newfd) := by
  by_cases hne : fd = newfd
  · subst hne
    obtain ⟨m, tab, hm, htab, hr⟩ := h.table ht
    have hexec : exec n w (.dup2 t fd fd) = w.call t fun m fs => ukSysDup2 n m fs fd fd := rfl
    cases hs : tab.at fd with
    | none =>
      refine Does.of_same h ht hm htab hexec ?_ hr (.error (.dup2Same htab hs))
      simp only [ukSysDup2, (hr.at_none hs).1]
      rfl
    | some s =>
      obtain ⟨i, rfl, hi⟩ := Tab.at_eq_some hs
      obtain ⟨hlt, hp, -⟩ := hr.ok i s.1 s.2 hi
      refine Does.of_same h ht hm htab hexec ?_ hr (.dup2Same htab hs)
      simp only [ukSysDup2, fmapLookup_eq hr.map hlt, hi, bind]
      exact if_pos (entry_ne_zero hp)
  · obtain ⟨r, w', d', hexec, hr', hcall⟩ := does_dup3 h ht hf fd newfd 0
    refine ⟨r, w', d', ?_, hr', .dup2 hne hcall⟩
    rw [← hexec]
    simp only [exec, ukSysDup2, if_neg hne]

private theorem does_cleanup {all : Bool} : Does n w d (.cleanup t all) := by
  obtain ⟨m, tab, hm, htab, hr⟩ := h.table ht
  have hexec : exec n w (.cleanup t all) = w.call t fun m fs => (fdtabCleanup n m fs all).map
    fun (m, fs) => (.ok 0, m, fs) := rfl
  obtain ⟨m', fs', hclean, hr'⟩ := cleanup_spec hr all
  refine Does.of_call h ht hm hexec ?_ hr' (.cleanup htab)
  rw [hclean]
  rfl

private theorem does_duplicate {mem : Option (Words × (Nat → BitVec 64))}
    (hf : ∀ tab, d.tabs[t]? = some tab → ∀ p, d.refs n p + tab.slots n p ≤ 2 ^ 32 - 1) :
    Does n w d (.duplicate t mem) := by
  obtain ⟨m, tab, hm, htab, hr⟩ := h.table ht
  cases mem with
  | none =>
    refine ⟨.tab none, w, d, ?_, h, .duplicateNone⟩
    simp only [exec, hm, bind, Option.bind]
  | some mem =>
    have hfit := hf tab htab
    rw [Descs.refs_eq htab] at hfit
    obtain ⟨m', fs', copy, hdup, hr', hcopy⟩ := duplicate_spec hr mem.1 mem.2 hfit
    refine ⟨.tab (some w.tabs.length), ⟨w.tabs.set t m' ++ [copy], fs', w.handed⟩, { d with tabs := d.tabs ++ [tab] },
      ?_, ⟨?_, ?_, h.handed, h.handedOk, ?_⟩, ?_⟩
    · simp only [exec, hm, hdup, bind, Option.bind]
    · rw [length_append, length_append, length_set, h.length]
      rfl
    · intro t' m1 tab1 hm1 htab1
      have hlen := h.length
      rcases Nat.lt_trichotomy t' w.tabs.length with hlt | heq | hgt
      · rw [List.getElem?_append_left (by rw [length_set]; exact hlt)] at hm1
        rw [List.getElem?_append_left (by omega)] at htab1
        by_cases htt : t' = t
        · subst htt
          rw [List.getElem?_set_self ht] at hm1
          rw [htab] at htab1
          cases hm1
          cases htab1
          exact ⟨hr'.map, hr.ok⟩
        · rw [List.getElem?_set_ne (Ne.symm htt)] at hm1
          exact h.tab t' m1 tab1 hm1 htab1
      · rw [heq, List.getElem?_append_right (by rw [length_set]), length_set, Nat.sub_self] at hm1
        rw [heq, ← hlen, List.getElem?_append_right (le_refl _), Nat.sub_self] at htab1
        cases hm1
        cases htab1
        exact ⟨hcopy, hr.ok⟩
      · rw [List.getElem?_eq_none (by rw [length_append, length_set]; exact hgt)] at hm1
        cases hm1
    · have hrefs : Descs.refs n { d with tabs := d.tabs ++ [tab] } = fun p =>
          tab.slots n p + (d.others n t p + d.handed p + tab.slots n p) := by
        funext p
        have := congrFun (Descs.refs_eq (n := n) htab) p
        unfold Descs.refs at this ⊢
        dsimp only at this ⊢
        rw [map_append, sum_append, map_singleton, sum_singleton]
        omega
      rw [hrefs]
      exact hr'.counts
    · rw [← h.length]
      exact .duplicate htab

end

private theorem does_of_legal (hn : n < 2 ^ 31) (h : w.Rep n d) (hl : Legal w op) (hf : Fits n d op) :
    Does n w d op := by
  cases op with
  | newDesc p => exact does_newDesc h hl
  | release p => exact does_release h hl
  | openDesc t of mode => exact does_openDesc hn h hl
  | get t fd => exact does_get h hl hf
  | setflags t fd flags => exact does_setflags h hl
  | getflags t fd => exact does_getflags h hl
  | close t fd => exact does_close h hl
  | dup t oldfd => exact does_dup h hl hn hf
  | dupMin t oldfd min flags => exact does_dupMin h hl hn hf oldfd min flags
  | dup2 t oldfd newfd => exact does_dup2 h hl hf
  | dup3 t oldfd newfd flags => exact does_dup3 h hl hf oldfd newfd flags
  | cleanup t all => exact does_cleanup h hl
  | duplicate t mem => exact does_duplicate h hl hf

end

def Allowed (w : World) (op : Op) : Prop := Legal w op ∧ Fits n (w.view n) op

section
variable {n : Nat} {w' : World} {ops : List Op}

/-- An allowed call keeps the world and its view in step. -/
theorem World.Rep.step (hn : n < 2 ^ 31) (h : w.Rep n (w.view n)) (ha : Allowed n w op) :
    (step n w op).Rep n ((step n w op).view n) := by
  obtain ⟨r, w', d', hexec, hr', -⟩ := does_of_legal hn h ha.1 ha.2
  have hstep : Fdtab.step n w op = w' := by
    unfold Fdtab.step
    rw [hexec]
  rw [hstep, hr'.view_eq]
  exact hr'

private theorem unchanged_of_view (h : CountsOk n w) (h' : CountsOk n w') (hv : w'.view n = w.view n) :
    Unchanged n w w' := by
  unfold CountsOk at h h'
  rw [hv] at h'
  refine ⟨hv, funext fun p => (h'.alive p).trans (h.alive p).symm, fun p hp => ?_⟩
  rw [h.alive, decide_eq_true_eq] at hp
  exact BitVec.eq_of_toNat_eq ((h'.refcnt p hp).trans (h.refcnt p hp).symm)

private theorem Call.error_same {d' : Descs} {r : Ret} {e : Errno} (h : Call n d op r d') (he : r = .int (.error e)) :
    d' = d := by
  induction h with
  | dup _ ih => exact ih he
  | dup2 _ _ ih => exact ih he
  | error _ => rfl
  | _ => cases he

/-- After every sequence of calls the counters are exact, and every further call returns and does what it should. -/
theorem fdtab_run (hn : n < 2 ^ 31) (h : Meets (step n) (Allowed n) (World.init n) ops)
    (ha : Allowed n (run (step n) (World.init n) ops) op) :
    CountsOk n (run (step n) (World.init n) ops) ∧
      ∃ r w', exec n (run (step n) (World.init n) ops) op = some (r, w') ∧ CountsOk n w' ∧
        Call n ((run (step n) (World.init n) ops).view n) op r (w'.view n) ∧
        ∀ e, r = .int (.error e) → Unchanged n (run (step n) (World.init n) ops) w' := by
  have hinit : (World.init n).Rep n ((World.init n).view n) := by
    rw [World.rep_init.view_eq]
    exact World.rep_init
  have hr := h.invariant (I := fun w => w.Rep n (w.view n)) (fun w op hw ha => hw.step hn ha) hinit
  obtain ⟨r, w', d', hexec, hr', hcall⟩ := does_of_legal hn hr ha.1 ha.2
  rw [← hr'.view_eq] at hcall
  refine ⟨hr.countsOk, r, w', hexec, hr'.countsOk, hcall, fun e he => ?_⟩
  subst he
  exact unchanged_of_view hr.countsOk hr'.countsOk (hcall.error_same rfl)

/-- Two descriptions are opened and the second gets the close-on-exec flag; then the first is closed. -/
def openTwo : List Op :=
  [.newDesc 2, .openDesc 0 2 O_CLOEXEC, .newDesc 4, .openDesc 0 4 0, .setflags 0 1 UK_FDTAB_CLOEXEC]

theorem fdtab_run_close : CountsOk 1024 (run (step 1024) (World.init 1024) openTwo) ∧
      ∃ r w', exec 1024 (run (step 1024) (World.init 1024) openTwo) (.close 0 0) = some (r, w') ∧ CountsOk 1024 w' ∧
        Call 1024 ((run (step 1024) (World.init 1024) openTwo).view 1024) (.close 0 0) r (w'.view 1024) ∧
        ∀ e, r = .int (.error e) → Unchanged 1024 (run (step 1024) (World.init 1024) openTwo) w' := by
  refine fdtab_run (by decide) ⟨⟨⟨by decide, by decide, rfl⟩, trivial⟩, ⟨⟨by decide, by decide⟩, trivial⟩,
    ⟨⟨by decide, by decide, ?_⟩, trivial⟩, ⟨⟨?_, ?_⟩, trivial⟩, ⟨?_, trivial⟩, trivial⟩ ⟨?_, trivial⟩
  case refine_4 | refine_5 =>
    dsimp only [Legal]
    decide +kernel
  all_goals decide +kernel

end

/-! ### The counters are not large enough for every run -/

def oneOpen : Tab := update (fun _ => none) 0 (some (2, false))

private theorem oneOpen_ok : oneOpen.Ok 1024 :=
  Tab.Ok.set (fun _ _ _ h => by cases h) (by decide) (by decide) (by decide)

structure Got (k : Nat) (w : World) : Prop where
  tabs : ∃ m, w.tabs = [m] ∧ m.Is 1024 fun i => slotEntry (oneOpen i)
  alive : w.files.alive 2 = true
  refcnt : w.files.refcnt 2 = 1 + BitVec.ofNat 32 k
  handed : w.handed 2 = k

def created : World := step 1024 (World.init 1024) (.newDesc 2)

private theorem got_zero : Got 0 (run (step 1024) (World.init 1024) [.newDesc 2, .openDesc 0 2 0]) := by
  have hinit : (World.init 1024).Rep 1024 ((World.init 1024).view 1024) := by
    rw [World.rep_init.view_eq]
    exact World.rep_init
  have h1 : created.Rep 1024 (created.view 1024) := hinit.step (by decide) ⟨⟨by decide, by decide, rfl⟩, trivial⟩
  obtain ⟨m, tab, hm, htab, hr⟩ := h1.table (t := 0) (by decide)
  have hempty : tab = fun _ => none := by
    have hview : (ukFmapInit ⟨⟨fun _ => 0, 1024⟩, fun _ => 0⟩).tab 1024 = fun _ => none :=
      UkFmap.tab_eq ukFmapInit_is (fun _ _ _ h => by cases h)
    exact (Option.some.inj htab).symm.trans hview
  have hpos : 0 < Descs.others 1024 (created.view 1024) 0 2 + (created.view 1024).handed 2 :=
    Nat.add_pos_right _ (by decide)
  rw [hempty] at hr
  rcases openDesc_spec hr (by decide) (by decide) (by decide) hpos 0 with ⟨i, m', hlow, hopen, hr'⟩ | ⟨hfull, -⟩
  · have hi : i = 0 := by
      by_contra hne
      exact hlow.lowest 0 (Nat.pos_of_ne_zero hne) (le_refl _) rfl
    have hstep : step 1024 created (.openDesc 0 2 0) =
      ⟨created.tabs.set 0 m', created.files, drop created.handed 2⟩ := by
      unfold step
      simp only [exec, hm, hopen, bind, Option.bind]
    rw [hi] at hr'
    rw [run_cons, run_cons]
    refine hstep ▸ ⟨⟨m', rfl, hr'.map⟩, rfl, rfl, rfl⟩
  · exact absurd rfl (hfull 0 (by decide))

variable {k : Nat}

private theorem got_succ (h : Got k w) : Got (k + 1) (step 1024 w (.get 0 0)) := by
  obtain ⟨m, htabs, hm⟩ := h.tabs
  obtain ⟨m', hget, hm'⟩ := fdtabGet_of_acq (i := 0) hm oneOpen_ok rfl (if_pos h.alive)
  have hm0 : w.tabs[0]? = some m := by
    rw [htabs]
    rfl
  have hget0 := congrArg (fun x => x.bind fun r => some (r.1.p, r.2.1, r.2.2)) hget
  have hstep : step 1024 w (.get 0 0) = ⟨[m'], { w.files with
      refcnt := update w.files.refcnt 2 (Ukfile.ukRefcountAcquire (w.files.refcnt 2)) }, bump w.handed 2⟩ := by
    unfold step
    simp only [exec, hm0, bind, Option.bind]
    rw [show ukFdtabGet m w.files 0 = _ from hget0, htabs]
    rfl
  rw [hstep]
  refine ⟨⟨m', rfl, hm'⟩, h.alive, ?_, ?_⟩
  · rw [h.refcnt]
    unfold Ukfile.ukRefcountAcquire
    rw [BitVec.ofNat_add, BitVec.add_assoc]
    rfl
  · dsimp only
    rw [bump_self, h.handed]

private theorem got_gets (h : Got 0 w) (k : Nat) : Got k (run (step 1024) w (List.replicate k (.get 0 0))) := by
  induction k with
  | zero => exact h
  | succ k ih =>
    rw [replicate_succ', run_append]
    exact got_succ ih

private theorem meets_gets {j : Nat} (h : Got j w) (k : Nat) :
    Meets (step 1024) Legal w (List.replicate k (.get 0 0)) := by
  induction k generalizing w j with
  | zero => trivial
  | succ k ih =>
    obtain ⟨m, htabs, -⟩ := h.tabs
    refine ⟨?_, ih (got_succ h)⟩
    show 0 < w.tabs.length
    rw [htabs]
    exact Nat.one_pos

private theorem overflow (hk : k = 2 ^ 32 - 1) (h : Got k w) : ¬ CountsOk 1024 w := by
  intro hc
  have hrefs : (w.view 1024).refs 1024 2 ≥ k := by
    unfold Descs.refs World.view
    dsimp only
    rw [h.handed]
    omega
  have hcount := hc.refcnt 2 (by omega)
  rw [h.refcnt, hk, show (1 : BitVec 32) + BitVec.ofNat 32 (2 ^ 32 - 1) = 0 by decide] at hcount
  rw [show (0 : BitVec 32).toNat = 0 from rfl] at hcount
  omega

private theorem overflow_run (hk : k = 2 ^ 32 - 1) :
    ∃ ops, Meets (step 1024) Legal (World.init 1024) ops ∧
    ¬ CountsOk 1024 (run (step 1024) (World.init 1024) ops) := by
  refine ⟨[.newDesc 2, .openDesc 0 2 0] ++ List.replicate k (.get 0 0), ?_, ?_⟩
  · rw [meets_append]
    exact ⟨⟨⟨by decide, by decide, rfl⟩, ⟨by decide, by decide⟩, trivial⟩, meets_gets got_zero k⟩
  · rw [run_append]
    exact overflow hk (got_gets got_zero k)

/-- After `2 ^ 32 - 1` calls of `uk_fdtab_get` that were not followed by a release, a counter is 0. -/
theorem fdtab_overflow : ∃ ops, Meets (step 1024) Legal (World.init 1024) ops ∧
    ¬ CountsOk 1024 (run (step 1024) (World.init 1024) ops) :=
  overflow_run rfl

end Unikraft.Fdtab
