import Mathlib.Data.Finset.Card
import Mathlib.Data.Int.DivMod
import Unikraft.Lib.Runs
import Unikraft.Lib.SearchTree

/-!
# The file objects of a live file system

A driver made from `live.h` keeps the `uk_file` objects of an instance in a search tree, ordered by their nodes. An
object that has lost its last strong reference stays in the tree until `FRELEASE` removes it, and is freed when the
last weak reference is gone, at any time. `ramfs_node_cmp` returns a difference of addresses as an `int`, and is no
order.
-/

namespace Unikraft.Ukfs

open Function (update update_of_ne update_self)
open List Runs SearchTree SearchTree.Tree

/-- `ramfs_node_cmp` of nodes of `size` bytes, given by their addresses. The difference of two pointers is only
defined for nodes that are a whole number of nodes apart. -/
def ramfsNodeCmp (size : Nat) (a b : Nat) : Int := (((a : Int) - b) / size).bmod 0x100000000

/-- The files with their instances, nodes and strong references, and the instances. `res` and `obj` say what
`FRELEASE` has not yet released of a file. -/
structure Live (N : Type) where
  files : Nat
  vol : Nat → Nat
  node : Nat → N
  strong : Nat → Nat
  res : Nat → Bool
  obj : Nat → Bool
  istates : Nat
  map : Nat → SearchTree.Tree Nat
  refcnt : Nat → Nat
  failed : Bool

namespace Live

variable {N : Type} (nodecmp : N → N → Int) (w : Live N)

def istateNew : Live N :=
  { w with map := update w.map w.istates .leaf, refcnt := update w.refcnt w.istates 1, istates := w.istates + 1 }

def istateRelease (i : Nat) : Live N :=
  { w with
    refcnt := update w.refcnt i (w.refcnt i - 1)
    failed := w.failed || decide (w.refcnt i = 1) && !(w.map i).toList.isEmpty }

def fileFromnode (n : N) (i : Nat) : Live N :=
  { w with
    files := w.files + 1
    vol := update w.vol w.files i
    node := update w.node w.files n
    strong := update w.strong w.files 1
    res := update w.res w.files true
    obj := update w.obj w.files true
    refcnt := update w.refcnt i (w.refcnt i + 1) }

/-- `UK_RB_INSERT` with the assertion behind it. The tree is rebalanced by `bal`. -/
def fileSet (f : Nat) (bal : SearchTree.Tree Nat → SearchTree.Tree Nat) : Live N :=
  let r := insert nodecmp w.node f (w.map (w.vol f))
  { w with map := update w.map (w.vol f) (bal r.1), failed := w.failed || r.2.isSome }

def fileClr (i f : Nat) (bal : SearchTree.Tree Nat → SearchTree.Tree Nat) : Live N :=
  { w with
    map := update w.map i (bal (ofList ((w.map i).toList.filter (· ≠ f))))
    failed := w.failed || !(w.map i).toList.contains f }

def tryAcquire (f : Nat) : Live N × Option Nat :=
  if w.strong f = 0 then (w, none) else ({ w with strong := update w.strong f (w.strong f + 1) }, some f)

def fileGet (i : Nat) (n : N) : Live N × Option Nat :=
  match find nodecmp w.node n (w.map i) with
  | none => (w, none)
  | some f => w.tryAcquire f

/-- A round of the loop, which goes on if the file that is found cannot be acquired. `mem` says whether there is
memory. -/
def fileIopen (i : Nat) (n : N) (mem : Bool) (bal : SearchTree.Tree Nat → SearchTree.Tree Nat) :
    Live N × Option Nat :=
  match find nodecmp w.node n (w.map i) with
  | some f => w.tryAcquire f
  | none => if mem then ((w.fileFromnode n i).fileSet nodecmp w.files bal, some w.files) else (w, none)

/-- A new instance with a file, made by `REBIND` and, with the steps in another order, by `VOPEN`. -/
def rebind (n : N) (mem : Bool) (bal : SearchTree.Tree Nat → SearchTree.Tree Nat) : Live N × Option Nat :=
  if mem then (((w.istateNew.fileFromnode n w.istates).istateRelease w.istates).fileSet nodecmp w.files bal,
      some w.files)
  else (w, none)

inductive Op (N : Type) where
  | rebind (n : N) (mem : Bool) (bal : SearchTree.Tree Nat → SearchTree.Tree Nat)
  | get (i : Nat) (n : N)
  | iopen (i : Nat) (n : N) (mem : Bool) (bal : SearchTree.Tree Nat → SearchTree.Tree Nat)
  | acquire (f : Nat)
  | release (f : Nat)
  | res (f : Nat) (bal : SearchTree.Tree Nat → SearchTree.Tree Nat)
  | obj (f : Nat)

def exec : Op N → Live N × Option Nat
  | .rebind n mem bal => w.rebind nodecmp n mem bal
  | .get i n => w.fileGet nodecmp i n
  | .iopen i n mem bal => w.fileIopen nodecmp i n mem bal
  | .acquire f => ({ w with strong := update w.strong f (w.strong f + 1) }, none)
  | .release f => ({ w with strong := update w.strong f (w.strong f - 1) }, none)
  | .res f bal => ({ w with res := update w.res f false }.fileClr (w.vol f) f bal, none)
  | .obj f => ({ w with obj := update w.obj f false }.istateRelease (w.vol f), none)

def step (op : Op N) : Live N := (w.exec nodecmp op).1

/-- Instances and files are used by holders of strong references, a file is released once, and rebalancing keeps the
order. -/
def Legal : Op N → Prop
  | .rebind _ _ bal => ∀ t, (bal t).toList = t.toList
  | .get i _ => ∃ f < w.files, w.vol f = i ∧ 0 < w.strong f
  | .iopen i _ _ bal => (∃ f < w.files, w.vol f = i ∧ 0 < w.strong f) ∧ ∀ t, (bal t).toList = t.toList
  | .acquire f | .release f => f < w.files ∧ 0 < w.strong f
  | .res f bal => f < w.files ∧ w.strong f = 0 ∧ w.res f = true ∧ ∀ t, (bal t).toList = t.toList
  | .obj f => f < w.files ∧ w.strong f = 0 ∧ w.obj f = true

/-- The comparison is a strict order on the node and those in the map, and a file is not freed while it is in the
map. -/
def Fine : Op N → Prop
  | .rebind n _ _ => Ordered nodecmp [n]
  | .get i n | .iopen i n _ _ => Ordered nodecmp (n :: (w.map i).toList.map w.node)
  | .obj f => w.res f = false
  | _ => True

/-- The map of an instance holds its files whose resources are not yet released, one for each node, and is empty when
the instance is freed. -/
structure MapOk : Prop where
  failed : w.failed = false
  mem : ∀ i f, f ∈ (w.map i).toList ↔ f < w.files ∧ w.vol f = i ∧ w.res f = true
  unique : ∀ i, ∀ f ∈ (w.map i).toList, ∀ g ∈ (w.map i).toList, w.node f = w.node g → f = g
  empty : ∀ i, w.refcnt i = 0 → (w.map i).toList = []

/-- A look for a node finds its file if that is in the map and can be acquired, and no other file. -/
def Finds : Op N → Prop
  | .get i n => ∀ f, (w.fileGet nodecmp i n).2 = some f ↔ f ∈ (w.map i).toList ∧ w.node f = n ∧ 0 < w.strong f
  | .iopen i n mem bal => ∀ f ∈ (w.map i).toList,
      ((w.fileIopen nodecmp i n mem bal).2 = some f ↔ w.node f = n ∧ 0 < w.strong f)
  | _ => True

def objs (i : Nat) : Finset Nat := (Finset.range w.files).filter fun f => w.vol f = i ∧ w.obj f = true

structure Inv : Prop where
  failed : w.failed = false
  mem : ∀ i f, f ∈ (w.map i).toList ↔ f < w.files ∧ w.vol f = i ∧ w.res f = true
  unique : ∀ i, ∀ f ∈ (w.map i).toList, ∀ g ∈ (w.map i).toList, w.node f = w.node g → f = g
  sorted : ∀ i, Sorted nodecmp w.node (w.map i).toList
  vol : ∀ f < w.files, w.vol f < w.istates
  strong : ∀ f < w.files, 0 < w.strong f → w.res f = true
  obj : ∀ f < w.files, w.res f = true → w.obj f = true
  refcnt : ∀ i, w.refcnt i = (w.objs i).card

variable {nodecmp w} {i f : Nat} {n : N} {bal : SearchTree.Tree Nat → SearchTree.Tree Nat}

private theorem mem_objs : f ∈ w.objs i ↔ f < w.files ∧ w.vol f = i ∧ w.obj f = true := by simp [objs]

section
variable (h : w.Inv nodecmp)
include h

private theorem Inv.mapOk : w.MapOk := by
  refine ⟨h.failed, h.mem, h.unique, fun i hi => eq_nil_iff_forall_not_mem.2 fun f hf => ?_⟩
  obtain ⟨hlt, hvol, hres⟩ := (h.mem i f).1 hf
  rw [h.refcnt, Finset.card_eq_zero] at hi
  exact Finset.eq_empty_iff_forall_notMem.1 hi f (mem_objs.2 ⟨hlt, hvol, h.obj f hlt hres⟩)

private theorem Inv.strongSet (hr : w.res f = true) (c : Nat) :
    Inv nodecmp { w with strong := update w.strong f c } := by
  refine { h with strong := fun g hg hs => ?_ }
  by_cases hgf : g = f
  · exact hgf ▸ hr
  · exact h.strong g hg (by simpa [update_of_ne hgf] using hs)

private theorem Inv.tryAcquire (hf : f ∈ (w.map i).toList) : (w.tryAcquire f).1.Inv nodecmp := by
  unfold Live.tryAcquire
  split
  · exact h
  · exact h.strongSet ((h.mem i f).1 hf).2.2 _

private theorem Inv.add (hi : i < w.istates) (ho : Ordered nodecmp (n :: (w.map i).toList.map w.node))
    (hnew : ∀ f ∈ (w.map i).toList, w.node f ≠ n) (hbal : ∀ t, (bal t).toList = t.toList) :
    ((w.fileFromnode n i).fileSet nodecmp w.files bal).Inv nodecmp := by
  have hlt j f (hf : f ∈ (w.map j).toList) : f ≠ w.files := ((h.mem j f).1 hf).1.ne
  have hnode j f (hf : f ∈ (w.map j).toList) : update w.node w.files n f = w.node f := update_of_ne (hlt j f hf) ..
  have hsort j : Sorted nodecmp (update w.node w.files n) (w.map j).toList :=
    (h.sorted j).imp_of_mem fun ha hb hab => by rwa [hnode j _ ha, hnode j _ hb]
  obtain ⟨hprev, hmem, hs⟩ := insert_spec (hsort i)
    (by rwa [update_self, map_congr_left (hnode i)]) fun f hf => by rw [update_self, hnode i f hf]; exact hnew f hf
  set w' := (w.fileFromnode n i).fileSet nodecmp w.files bal with hw
  have hmap : w'.map = update w.map i (bal (insert nodecmp (update w.node w.files n) w.files (w.map i)).1) := by
    simp only [hw, fileSet, fileFromnode, update_self]
  have hfiles : w'.files = w.files + 1 := rfl
  have hnode' j f (hf : f ∈ (w.map j).toList) : w'.node f = w.node f := hnode j f hf
  have hn : w'.node w.files = n := update_self ..
  have hin j f : f ∈ (w'.map j).toList ↔ f ∈ (w.map j).toList ∨ j = i ∧ f = w.files := by
    by_cases hj : j = i
    · rw [hmap, hj, update_self, hbal, hmem]
      simp [or_comm]
    · simp [hmap, hj]
  have hold g (hg : g ≠ w.files) : w'.vol g = w.vol g ∧ w'.res g = w.res g ∧ w'.obj g = w.obj g ∧
    w'.strong g = w.strong g :=
    ⟨update_of_ne hg .., update_of_ne hg .., update_of_ne hg .., update_of_ne hg ..⟩
  have hfile : w'.vol w.files = i ∧ w'.res w.files = true ∧ w'.obj w.files = true :=
    ⟨update_self .., update_self .., update_self ..⟩
  have hcases (P : Nat → Prop) (hP : P w.files) (hlt : ∀ g < w.files, g ≠ w.files → P g) g (hg : g < w'.files) :
      P g := by
    rcases Nat.lt_succ_iff_lt_or_eq.1 hg with hg | rfl
    · exact hlt g hg hg.ne
    · exact hP
  refine ⟨?_, fun j f => ?_, fun j f hf g hg hfg => ?_, fun j => ?_, hcases _ ?_ fun g hg hne => ?_,
    hcases _ (fun _ => hfile.2.1) fun g hg hne => ?_, hcases _ (fun _ => hfile.2.2) fun g hg hne => ?_, fun j => ?_⟩
  · simp [hw, fileSet, fileFromnode, update_self, hprev, h.failed]
  · by_cases hf : f = w.files
    · have hnot : w.files ∉ (w.map j).toList := fun hm => hlt j _ hm rfl
      simp only [hin, hf, hnot, hfile, hfiles, false_or, and_true, Nat.lt_succ_self, true_and, eq_comm]
    · rw [hin, (hold f hf).1, (hold f hf).2.1, h.mem, hfiles, Nat.lt_succ_iff_lt_or_eq]
      simp only [hf, and_false, or_false]
  · rcases (hin j f).1 hf with hf | ⟨hji, hf⟩ <;> rcases (hin j g).1 hg with hg | ⟨hji', hg⟩
    · exact h.unique j f hf g hg (by rwa [hnode' j f hf, hnode' j g hg] at hfg)
    · rw [hnode' j f hf, hg, hn] at hfg
      exact absurd hfg (hnew f (hji' ▸ hf))
    · rw [hnode' j g hg, hf, hn] at hfg
      exact absurd hfg.symm (hnew g (hji ▸ hg))
    · exact hf.trans hg.symm
  · by_cases hj : j = i
    · rw [hmap, hj, update_self, hbal]
      exact hs
    · rw [hmap, update_of_ne hj]
      exact hsort j
  · exact hfile.1 ▸ hi
  · rw [(hold g hne).1]
    exact h.vol g hg
  · rw [(hold g hne).2.1, (hold g hne).2.2.2]
    exact h.strong g hg
  · rw [(hold g hne).2.1, (hold g hne).2.2.1]
    exact h.obj g hg
  · have hcount : w'.objs j = if j = i then Insert.insert w.files (w.objs i) else w.objs j := by
      ext g
      by_cases hg : g = w.files
      · split_ifs with hj
        · simp [mem_objs, hg, hfiles, hfile, hj]
        · simp [mem_objs, hg, hfiles, hfile, Ne.symm hj]
      · have hlt : g < w'.files ↔ g < w.files := by omega
        split_ifs with hj <;> simp [mem_objs, hg, hlt, hold g hg, hj]
    rw [hcount]
    split_ifs with hj
    · rw [Finset.card_insert_of_notMem (by simp [mem_objs]), ← h.refcnt, hj]
      exact update_self ..
    · rw [← h.refcnt]
      exact update_of_ne hj ..

private theorem Inv.map_istates : (w.map w.istates).toList = [] :=
  eq_nil_iff_forall_not_mem.2 fun f hf => (h.vol f ((h.mem _ f).1 hf).1).ne ((h.mem _ f).1 hf).2.1

private theorem Inv.istateNew_eq : (w.istateNew.fileFromnode n w.istates).istateRelease w.istates =
      { w with istates := w.istates + 1 }.fileFromnode n w.istates := by
  have hcnt : w.refcnt w.istates = 0 := by
    rw [h.refcnt, Finset.card_eq_zero, Finset.eq_empty_iff_forall_notMem]
    exact fun f hf => (h.vol f (mem_objs.1 hf).1).ne (mem_objs.1 hf).2.1
  have hleaf : update w.map w.istates .leaf = w.map := toList_eq_nil.1 h.map_istates ▸ Function.update_eq_self ..
  simp [istateNew, fileFromnode, istateRelease, hleaf, hcnt]

private theorem Inv.rebind (mem : Bool) (hn : Ordered nodecmp [n]) (hbal : ∀ t, (bal t).toList = t.toList) :
    (w.rebind nodecmp n mem bal).1.Inv nodecmp := by
  unfold Live.rebind
  split
  · have hnew : Inv nodecmp { w with istates := w.istates + 1 } :=
      { h with vol := fun f hf => (h.vol f hf).trans (Nat.lt_succ_self _) }
    rw [h.istateNew_eq]
    exact hnew.add (Nat.lt_succ_self _) (by simpa [h.map_istates] using hn) (by simp [h.map_istates]) hbal
  · exact h

private theorem Inv.released (hf : f < w.files) (hs : w.strong f = 0) (hr : w.res f = true)
    (hbal : ∀ t, (bal t).toList = t.toList) :
    Inv nodecmp ({ w with res := update w.res f false }.fileClr (w.vol f) f bal) := by
  set w' := { w with res := update w.res f false }.fileClr (w.vol f) f bal with hw
  have hold g (hg : g ≠ f) : w'.res g = w.res g := update_of_ne hg ..
  have hmap i : (w'.map i).toList = (w.map i).toList.filter (· ≠ f) := by
    by_cases hi : i = w.vol f
    · simp [hw, fileClr, hi, hbal, toList_ofList]
    · have : ∀ g ∈ (w.map i).toList, g ≠ f := fun g hg hgf => hi (hgf ▸ ((h.mem i g).1 hg).2.1.symm)
      rw [filter_eq_self.2 (by simpa using this)]
      simp [hw, fileClr, hi]
  refine ⟨?_, fun i g => ?_, fun i a ha b hb => ?_, fun i => ?_, h.vol, fun g hg hg' => ?_, fun g hg hg' => ?_,
      h.refcnt⟩
  · simp [hw, fileClr, h.failed, (h.mem _ f).2 ⟨hf, rfl, hr⟩]
  · by_cases hgf : g = f
    · rw [hmap, hgf]
      simp [hw, fileClr]
    · rw [hold g hgf, hmap, mem_filter, h.mem]
      simp [hgf, hw, fileClr]
  · rw [hmap] at ha hb
    exact h.unique i a (mem_filter.1 ha).1 b (mem_filter.1 hb).1
  · rw [hmap]
    exact Pairwise.filter _ (h.sorted i)
  · rw [hold g fun hc => hg'.ne' (hc ▸ hs)]
    exact h.strong g hg hg'
  · refine h.obj g hg ?_
    rwa [hold g ?_] at hg'
    rintro rfl
    simp [hw, fileClr] at hg'

private theorem Inv.freed (hf : f < w.files) (hr : w.res f = false) (ho : w.obj f = true) :
    Inv nodecmp ({ w with obj := update w.obj f false }.istateRelease (w.vol f)) := by
  set w' := { w with obj := update w.obj f false }.istateRelease (w.vol f) with hw
  have hcount : f ∈ w.objs (w.vol f) := mem_objs.2 ⟨hf, rfl, ho⟩
  have hobjs i : w'.objs i = (w.objs i).erase f := by
    ext g
    by_cases hgf : g = f <;> simp [mem_objs, hgf, hw, istateRelease]
  refine ⟨?_, h.mem, h.unique, h.sorted, h.vol, h.strong, fun g hg hrg => ?_, fun i => ?_⟩
  · suffices w.refcnt (w.vol f) = 1 → (w.map (w.vol f)).toList = [] by simpa [hw, istateRelease, h.failed] using this
    intro h1
    -- A file in the map would be the one that is freed, which has been taken out of it.
    refine eq_nil_iff_forall_not_mem.2 fun g hg => ?_
    obtain ⟨hlt, hvol, hres⟩ := (h.mem _ g).1 hg
    rw [h.refcnt] at h1
    have hgf := Finset.card_le_one.1 h1.le g (mem_objs.2 ⟨hlt, hvol, h.obj g hlt hres⟩) f hcount
    rw [hgf, hr] at hres
    cases hres
  · have hgf : g ≠ f := fun hc => Bool.false_ne_true (hr.symm.trans (hc ▸ hrg))
    exact (update_of_ne hgf ..).trans (h.obj g hg hrg)
  · rw [hobjs]
    by_cases hi : i = w.vol f
    · rw [hi, Finset.card_erase_of_mem hcount, ← h.refcnt]
      exact update_self ..
    · rw [Finset.erase_eq_of_notMem fun hc => hi (mem_objs.1 hc).2.1.symm, ← h.refcnt]
      exact update_of_ne hi ..

/-- A search finds the file of the node, if the comparison is an order on the nodes in the tree. -/
theorem Inv.find_iff (ho : Ordered nodecmp (n :: (w.map i).toList.map w.node)) :
    find nodecmp w.node n (w.map i) = some f ↔ f ∈ (w.map i).toList ∧ w.node f = n := by
  constructor
  · intro hfind
    obtain ⟨hf, hcmp⟩ := find_eq_some hfind
    exact ⟨hf, ((ho n mem_cons_self _ (mem_cons_of_mem _ (mem_map_of_mem hf))).1.1 hcmp).symm⟩
  · rintro ⟨hf, rfl⟩
    exact find_of_mem (h.sorted i) (ho.mono (subset_cons_self _ _)) hf

/-- Every operation keeps the invariant. -/
theorem Inv.step {op : Op N} (hl : w.Legal op) (hf : w.Fine nodecmp op) : (w.step nodecmp op).Inv nodecmp := by
  cases op with
  | rebind n mem bal => exact h.rebind mem hf hl
  | get i n =>
    show (w.fileGet nodecmp i n).1.Inv nodecmp
    unfold fileGet
    split
    · exact h
    · next f hfind => exact h.tryAcquire (find_eq_some hfind).1
  | iopen i n mem bal =>
    show (w.fileIopen nodecmp i n mem bal).1.Inv nodecmp
    unfold fileIopen
    split
    · next f hfind => exact h.tryAcquire (find_eq_some hfind).1
    · next hfind =>
      split
      · obtain ⟨⟨f, hlt, hvol, -⟩, hbal⟩ := hl
        refine h.add (hvol ▸ h.vol f hlt) hf (fun g hg hgn => ?_) hbal
        rw [(h.find_iff hf).2 ⟨hg, hgn⟩] at hfind
        cases hfind
      · exact h
  | acquire f | release f => exact h.strongSet (h.strong f hl.1 hl.2) _
  | res f bal => exact h.released hl.1 hl.2.1 hl.2.2.1 hl.2.2.2
  | obj f => exact h.freed hl.1 hf hl.2.2

end

private theorem tryAcquire_eq_some {g : Nat} : (w.tryAcquire g).2 = some f ↔ g = f ∧ 0 < w.strong f := by
  unfold Live.tryAcquire
  split
  · next hg =>
    refine ⟨nofun, fun hc => ?_⟩
    rw [hc.1] at hg
    omega
  · next hg =>
    rw [Option.some_inj]
    exact ⟨fun hc => ⟨hc, Nat.pos_of_ne_zero (hc ▸ hg)⟩, And.left⟩

private theorem Inv.finds (h : w.Inv nodecmp) {op : Op N} (hf : w.Fine nodecmp op) : w.Finds nodecmp op := by
  cases op with
  | get i n =>
    intro f
    rw [← and_assoc, ← h.find_iff hf]
    unfold fileGet
    split
    · next hfind => simp [hfind]
    · next g hfind => rw [tryAcquire_eq_some, hfind, Option.some_inj]
  | iopen i n mem bal =>
    intro f hm
    have hfind : find nodecmp w.node n (w.map i) = some f ↔ w.node f = n := (h.find_iff hf).trans (and_iff_right hm)
    have hne : w.files ≠ f := ((h.mem i f).1 hm).1.ne'
    rw [← hfind]
    unfold fileIopen
    split
    · next g hg => rw [tryAcquire_eq_some, hg, Option.some_inj]
    · next hg => split <;> simp [hg, hne]
  | _ => trivial

def init (n : N) : Live N :=
  { files := 0, vol := fun _ => 0, node := fun _ => n, strong := fun _ => 0
    res := fun _ => false, obj := fun _ => false
    istates := 0, map := fun _ => .leaf, refcnt := fun _ => 0, failed := false }

private theorem init_inv (n : N) : (init n).Inv nodecmp where
  failed := rfl
  mem := by simp [init, toList]
  unique := by simp [init, toList]
  sorted _ := Pairwise.nil
  vol := nofun
  strong := nofun
  obj := nofun
  refcnt _ := rfl

/-- The map is exact, and every look for a node finds its file, in every run in which the nodes are ordered and no
file is freed while it is in the map. -/
theorem fileMap_exact {ops : List (Op N)}
    (h : Meets (step nodecmp) (fun w op => w.Legal op ∧ w.Fine nodecmp op) (init n) ops) :
    Always (step nodecmp) MapOk (init n) ops ∧ Meets (step nodecmp) (Finds nodecmp) (init n) ops := by
  have hstep (w : Live N) op (hw : w.Inv nodecmp) (hop : w.Legal op ∧ w.Fine nodecmp op) := hw.step hop.1 hop.2
  refine ⟨h.always hstep (fun w hw => hw.mapOk) (init_inv n), ?_⟩
  exact (h.with_invariant hstep (init_inv n)).imp fun w op hop => hop.2.finds hop.1.2

/-- A file is opened, found and released, its resources and then its memory are freed, and its node is opened
again. -/
def reopen : List (Op Nat) :=
  [.rebind 4096 true id, .iopen 0 8192 true id, .get 0 8192, .release 1, .release 1, .res 1 id, .obj 1,
      .iopen 0 8192 true id]

theorem fileMap_exact_ramfs : Always (step (ramfsNodeCmp 256)) MapOk (init 0) reopen ∧
    Meets (step (ramfsNodeCmp 256)) (Finds (ramfsNodeCmp 256)) (init 0) reopen := by
  refine fileMap_exact ⟨⟨fun _ => rfl, ?_⟩, ⟨⟨⟨0, by decide⟩, fun _ => rfl⟩, ?_⟩, ⟨⟨0, by decide⟩, ?_⟩,
    ⟨⟨by decide, by decide⟩, trivial⟩, ⟨⟨by decide, by decide⟩, trivial⟩,
      ⟨⟨by decide, by decide, by decide, fun _ => rfl⟩, trivial⟩,
    ⟨⟨by decide, by decide, by decide⟩, ?_⟩, ⟨⟨⟨0, by decide⟩, fun _ => rfl⟩, ?_⟩, trivial⟩
  all_goals
    unfold Fine Ordered
    decide +kernel

/-- Nodes `2 ^ 32` nodes apart compare equal: the one is opened and the file of the other is found. -/
theorem not_fileMap_exact : ¬ ∀ ops : List (Op Nat), Meets (step (ramfsNodeCmp 256)) Legal (init 0) ops →
    Always (step (ramfsNodeCmp 256)) MapOk (init 0) ops ∧ Meets (step (ramfsNodeCmp 256)) (Finds (ramfsNodeCmp 256))
    (init 0) ops := by
  intro h
  have hrun := h [.rebind 4096 true id, .iopen 0 (4096 + 256 * 0x100000000) true id]
    ⟨fun _ => rfl, ⟨⟨0, by decide, rfl, by decide⟩, fun _ => rfl⟩, trivial⟩
  have hfind := (hrun.2.2.1 0 (by decide)).1 (by decide +kernel)
  exact absurd hfind.1 (by decide +kernel)

end Live

end Unikraft.Ukfs
