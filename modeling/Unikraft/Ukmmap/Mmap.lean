import Mathlib.Data.List.Pairwise
import Mathlib.Data.List.TakeWhile
import Unikraft.Lib.Runs

/-!
# The mmap over the heap

`lib/ukmmap/mmap.c` allocates the memory of each mapping and keeps the regions in the list `mmap_addr`. `munmap` never
sets `prev`, so that the regions before the one it releases are forgotten, and it frees the address it is called with,
which may lie inside the region.
-/

namespace Unikraft.Ukmmap

open List Runs

structure MmapAddr where
  /-- Where the element itself is. -/
  node : Nat
  start : Nat
  stop : Nat
  deriving DecidableEq

def MmapAddr.has (r : MmapAddr) (addr : Nat) : Bool := decide (r.start ≤ addr ∧ addr < r.stop)

structure State where
  mmapAddr : List MmapAddr
  memory : Nat → BitVec 8
  /-- The blocks that the allocator has given out and not got back. -/
  live : List Nat
  /-- `uk_free` was called with something else. -/
  badFree : Bool

inductive Errno
  | EINVAL
  | ENOMEM

/-- The calls, with what `uk_memalign` and `uk_malloc` return, and the stores of the program. -/
inductive Op
  | mmap (addr len : Nat) (prot flags : BitVec 32) (fildes off : Int) (mem new : Option Nat)
  | munmap (addr len : Nat)
  | store (addr : Nat) (v : BitVec 8)

namespace State

variable (s : State)

def ukFree (p : Nat) : State := if p ∈ s.live then { s with live := s.live.erase p } else { s with badFree := true }

/-- An error is `MAP_FAILED`, with the value of `errno` if that is set. -/
def mmap (addr len : Nat) (prot flags : BitVec 32) (fildes off : Int) (mem new : Option Nat) :
    State × Except (Option Errno) Nat :=
  if len = 0 then (s, .error (some .EINVAL))
  else if fildes ≠ -1 ∨ off ≠ 0 then (s, .error none)
  else if prot &&& 3 = 0 ∧ prot ≠ 0 then (s, .error none)
  else if flags &&& 0x22 = 0 ∧ flags &&& 0x32 = 0 ∧ flags &&& 0x4022 = 0 then (s, .error none)
  else if addr ≠ 0 ∧ s.mmapAddr.any (·.has addr) = true then (s, .ok addr)
  else
    match mem, new with
    | none, _ => (s, .error (some .ENOMEM))
    | some mem, none => ({ s with live := mem :: s.live }.ukFree mem, .error (some .ENOMEM))
    | some mem, some new =>
      ({ s with
          mmapAddr := s.mmapAddr ++ [⟨new, mem, mem + len⟩]
          memory := fun x => if mem ≤ x ∧ x < mem + len then 0 else s.memory x
          live := new :: mem :: s.live }, .ok mem)

def munmap (addr len : Nat) : State × Except (Option Errno) Nat :=
  if len = 0 then (s, .error (some .EINVAL))
  else if addr = 0 then (s, .ok 0)
  else
    match s.mmapAddr.dropWhile fun r => !r.has addr with
    | [] => (s, .ok 0)
    | tmp :: next =>
      if len ≠ tmp.stop - tmp.start then (s, .ok 0)
      -- `prev` is null whatever was passed before
      else (({ s with mmapAddr := next }.ukFree tmp.node).ukFree addr, .ok 0)

def exec : Op → State × Except (Option Errno) Nat
  | .mmap addr len prot flags fildes off mem new => s.mmap addr len prot flags fildes off mem new
  | .munmap addr len => s.munmap addr len
  | .store addr v => ({ s with memory := fun x => if x = addr then v else s.memory x }, .ok 0)

def step (op : Op) : State := (s.exec op).1

/-- The list has exactly the blocks that are in use, as regions and as elements, and only such blocks were freed. -/
def Exact : Prop := s.badFree = false ∧ s.live ~ s.mmapAddr.flatMap fun r => [r.node, r.start]

/-- The arguments are those of an anonymous mapping, and a new block is apart from those in use. -/
def Fits : Op → Prop
  | .mmap _ len prot flags fildes off mem _ =>
    len ≠ 0 ∧ fildes = -1 ∧ off = 0 ∧ ¬(prot &&& 3 = 0 ∧ prot ≠ 0) ∧ flags &&& 0x22 ≠ 0 ∧
      ∀ p ∈ mem, 0 < p ∧ ∀ r ∈ s.mmapAddr, p + len ≤ r.start ∨ r.stop ≤ p
  | _ => True

/-- A region is released as a whole, from its start and as the first one of the list. -/
def Safe : Op → Prop
  | .munmap addr len =>
    ∀ tmp next, s.mmapAddr.dropWhile (fun r => !r.has addr) = tmp :: next → len = tmp.stop - tmp.start →
      s.mmapAddr = tmp :: next ∧ addr = tmp.start
  | _ => True

/-- What a call is meant to do. -/
def Expected : Op → Prop
  | .mmap addr len prot flags fildes off mem new =>
    let (s', ret) := s.mmap addr len prot flags fildes off mem new
    if addr ≠ 0 ∧ ∃ r ∈ s.mmapAddr, r.has addr = true then ret = .ok addr ∧ s' = s
    else (∃ e, ret = .error e) ∧ s'.mmapAddr = s.mmapAddr ∨ ∃ p node, mem = some p ∧ ret = .ok p ∧
      (∀ x, p ≤ x → x < p + len → s'.memory x = 0) ∧ s'.mmapAddr = s.mmapAddr ++ [⟨node, p, p + len⟩]
  | .munmap addr len => ∀ r ∈ s.mmapAddr, r.start = addr → r.stop - r.start = len →
      (s.munmap addr len).1.mmapAddr = s.mmapAddr.erase r ∧
        (s.munmap addr len).1.live = (s.live.erase r.node).erase r.start
  | .store _ _ => True

def Apart (r r' : MmapAddr) : Prop := r'.stop ≤ r.start ∨ r.stop ≤ r'.start

def Inv : Prop := s.Exact ∧ s.mmapAddr.Pairwise Apart ∧ ∀ r ∈ s.mmapAddr, 0 < r.start ∧ r.start < r.stop

variable {s} {op : Op} {addr len : Nat}

private theorem Inv.eq_of_has (h : s.Inv) {r r' : MmapAddr} (hr : r ∈ s.mmapAddr) (hr' : r' ∈ s.mmapAddr)
    (ha : r.has addr = true) (ha' : r'.has addr = true) : r = r' := by
  by_contra hne
  have hsymm : Std.Symm Apart := ⟨fun _ _ => Or.symm⟩
  have hapart := h.2.1.forall hr hr' hne
  simp only [MmapAddr.has, decide_eq_true_eq] at ha ha'
  unfold Apart at hapart
  omega

private theorem ukFree_of_perm {l : List Nat} {p : Nat} (h : s.live ~ p :: l) :
    s.ukFree p = { s with live := s.live.erase p } ∧ s.live.erase p ~ l := by
  refine ⟨if_pos (h.mem_iff.2 (mem_cons_self ..)), ?_⟩
  have herase := h.erase p
  rwa [erase_cons_head] at herase

private theorem Inv.has_start (h : s.Inv) {r : MmapAddr} (hr : r ∈ s.mmapAddr) (ha : r.start = addr) :
    r.has addr = true :=
  decide_eq_true ⟨Nat.le_of_eq ha, ha ▸ (h.2.2 r hr).2⟩

private theorem Inv.munmap (h : s.Inv) (hs : s.Safe (.munmap addr len)) :
    s.Expected (.munmap addr len) ∧ (s.munmap addr len).1.Inv := by
  dsimp only [Expected]
  unfold State.munmap
  split
  next => exact ⟨fun r hr _ hlen => by have := h.2.2 r hr; omega, h⟩
  split
  next => exact ⟨fun r hr ha => by have := h.2.2 r hr; omega, h⟩
  split
  next hnil => exact ⟨fun r hr ha => by simpa [h.has_start hr ha] using dropWhile_eq_nil_iff.1 hnil r hr, h⟩
  next tmp next hcons =>
    have hmem : tmp ∈ s.mmapAddr := (dropWhile_sublist _).subset (hcons ▸ mem_cons_self ..)
    have hfirst := head?_dropWhile_not (fun r : MmapAddr => !r.has addr) s.mmapAddr
    rw [hcons] at hfirst
    have heq {r : MmapAddr} (hr : r ∈ s.mmapAddr) (ha : r.start = addr) : r = tmp :=
      h.eq_of_has hr hmem (h.has_start hr ha) (by simpa using hfirst)
    split
    next hlen => exact ⟨fun r hr ha hr' => absurd (heq hr ha ▸ hr'.symm) hlen, h⟩
    next hlen =>
      obtain ⟨hlist, rfl⟩ := hs tmp next hcons (not_not.1 hlen)
      obtain ⟨⟨hbad, hlive⟩, hpair, hpos⟩ := h
      rw [hlist] at hlive hpair hpos
      obtain ⟨h1, hlive⟩ := ukFree_of_perm (s := { s with mmapAddr := next }) hlive
      obtain ⟨h2, hlive⟩ := ukFree_of_perm (s := { s with mmapAddr := next, live := s.live.erase tmp.node }) hlive
      rw [h1, h2]
      refine ⟨fun r hr ha _ => ?_, ⟨hbad, hlive⟩, (pairwise_cons.1 hpair).2, (forall_mem_cons.1 hpos).2⟩
      rw [heq hr ha, hlist, erase_cons_head]
      exact ⟨rfl, rfl⟩

private theorem Inv.mmap {prot flags : BitVec 32} {fildes off : Int} {mem new : Option Nat} (h : s.Inv)
    (hf : s.Fits (.mmap addr len prot flags fildes off mem new)) :
    s.Expected (.mmap addr len prot flags fildes off mem new) ∧
      (s.mmap addr len prot flags fildes off mem new).1.Inv := by
  obtain ⟨hlen, rfl, rfl, hprot, hflags, hmem⟩ := hf
  have hany : (s.mmapAddr.any (·.has addr) = true) = ∃ r ∈ s.mmapAddr, r.has addr = true := propext any_eq_true
  simp only [Expected, State.mmap, hlen, hprot, hflags, hany, ne_eq, not_true_eq_false, or_self, false_and, if_false]
  split
  next => exact ⟨⟨rfl, rfl⟩, h⟩
  cases mem with
  | none => exact ⟨.inl ⟨⟨_, rfl⟩, rfl⟩, h⟩
  | some p =>
    obtain ⟨hp, hapart⟩ := hmem p rfl
    obtain ⟨⟨hbad, hlive⟩, hpair, hpos⟩ := h
    cases new with
    | none =>
      dsimp only
      rw [(ukFree_of_perm (s := { s with live := p :: s.live }) (.refl _)).1]
      exact ⟨.inl ⟨⟨_, rfl⟩, rfl⟩, ⟨hbad, by rwa [erase_cons_head]⟩, hpair, hpos⟩
    | some node =>
      refine ⟨.inr ⟨p, node, rfl, rfl, fun x h1 h2 => if_pos ⟨h1, h2⟩, rfl⟩, ⟨hbad, ?_⟩, ?_, ?_⟩
      · dsimp only
        rw [flatMap_append]
        exact ((hlive.cons p).cons node).trans (@perm_append_comm _ [node, p] _)
      · refine pairwise_append.2 ⟨hpair, pairwise_singleton .., fun r hr r' hr' => ?_⟩
        rw [mem_singleton.1 hr']
        exact hapart r hr
      · rw [forall_mem_append, forall_mem_singleton]
        exact ⟨hpos, hp, Nat.lt_add_of_pos_right (Nat.pos_of_ne_zero hlen)⟩

/-- Every call does what it should and keeps the invariant. -/
theorem Inv.exec (h : s.Inv) (hf : s.Fits op) (hs : s.Safe op) : s.Expected op ∧ (s.step op).Inv := by
  cases op with
  | mmap addr len prot flags fildes off mem new => exact h.mmap hf
  | munmap addr len => exact h.munmap hs
  | store addr v => exact ⟨trivial, h⟩

/-- No mapping, and any contents of the memory. -/
def init (memory : Nat → BitVec 8) : State := ⟨[], memory, [], false⟩

theorem inv_init (memory : Nat → BitVec 8) : (init memory).Inv := by simp [Inv, Exact, init]

end State

open State

/-- In every run whose unmappings are safe, the list is exact and every call does what it should. -/
theorem mmap_exact (memory : Nat → BitVec 8) (ops : List Op)
    (h : Meets step (fun s op => s.Fits op ∧ s.Safe op) (init memory) ops) :
    Always step Exact (init memory) ops ∧ Meets step Expected (init memory) ops := by
  have hstep (s : State) (op : Op) (hi : s.Inv) (hop : s.Fits op ∧ s.Safe op) := (hi.exec hop.1 hop.2).2
  exact ⟨h.always hstep (fun _ hi => hi.1) (inv_init memory),
    (h.with_invariant hstep (inv_init memory)).imp fun s op hop => (hop.2.exec hop.1.1 hop.1.2).1⟩

/-- Two pages are mapped, and the first one is released. -/
def mapTwo : List Op :=
  [.mmap 0 4096 3 0x22 (-1) 0 (some 4096) (some 64), .mmap 0 4096 3 0x22 (-1) 0 (some 8192) (some 128)]

theorem mmap_exact_first : Always step Exact (init fun _ => 0) (mapTwo ++ [.munmap 4096 4096]) ∧
    Meets step Expected (init fun _ => 0) (mapTwo ++ [.munmap 4096 4096]) := by
  refine mmap_exact _ _ ⟨⟨by simp [Fits, init], trivial⟩, ⟨by simp [Fits, init, step, exec, mmap], trivial⟩,
      ⟨trivial, ?_⟩, trivial⟩
  rintro tmp next h -
  cases h
  exact ⟨rfl, rfl⟩

/-- Releasing the second page forgets the first one. -/
theorem not_mmap_exact : Meets step Fits (init fun _ => 0) (mapTwo ++ [.munmap 8192 4096]) ∧
    (run step (init fun _ => 0) (mapTwo ++ [.munmap 8192 4096])).mmapAddr = [] ∧
    ¬(run step (init fun _ => 0) (mapTwo ++ [.munmap 8192 4096])).Exact := by
  refine ⟨⟨by simp [Fits, init], by simp [Fits, init, step, exec, mmap], trivial, trivial⟩, rfl, fun h => ?_⟩
  have hlen : [64, 4096].length = 0 := h.2.length_eq
  cases hlen

end Unikraft.Ukmmap
