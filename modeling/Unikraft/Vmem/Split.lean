import Mathlib.Data.List.TakeWhile
import Mathlib.Data.Nat.Bitwise
import Unikraft.Lib.Areas

/-!
# Virtual address spaces

An address space is a list of areas in ascending order. `uk_vma_map` adds an area, `uk_vma_unmap` and
`uk_vma_set_attr` act on a range and split the areas at its ends, and adjacent areas that agree are merged again.
`none` is a failed assertion or a crash. No sum of an address and a length that is used wraps. Splitting and merging
keep the view of the address space, and the areas stay apart (`Reshaped`). What is known of their ends is a parameter
(`Ends`).
-/

namespace Unikraft.Vmem

def vaddrMax : Nat := 0xffffffffffffffff

def vaddrInv : Nat := 0xbaadbaad80000000

def vaddrAny : Nat := vaddrInv

/-- The size of a page: four kilobytes, and 512 pages of one level make one of the next. -/
def pageLxSize : Nat → Nat
  | 0 => 4096
  | lvl + 1 => 512 * pageLxSize lvl

def pageLxHas (lvl : Nat) : Bool := decide (lvl ≤ 2)

def pageShiftLx (order : Nat) : Nat := (order - 12) / 9

def pageLxAligned (v lvl : Nat) : Bool := decide (v % pageLxSize lvl = 0)

def alignUp (v a : Nat) : Nat := (v + (a - 1)) / a * a

inductive Errno
  | EINVAL
  | ENOENT
  | EEXIST
  | ENOMEM
  | EPERM
  | other (n : Nat)
  deriving DecidableEq

/-- What all pages of an area have in common: the type of the area and the rest. -/
structure Props (O N : Type) where
  ops : O
  attr : Nat
  flags : Nat
  pageLvl : Option Nat
  name : Option N
  deriving DecidableEq

/-- An area, from `start` up to `stop`. It has no page level where the source has the level -1. -/
structure Vma (O N : Type) where
  start : Nat
  stop : Nat
  ops : O
  attr : Nat
  flags : Nat
  pageLvl : Option Nat
  name : Option N
  deriving DecidableEq

variable {O N P : Type}

def Vma.props (v : Vma O N) : Props O N := ⟨v.ops, v.attr, v.flags, v.pageLvl, v.name⟩

def Vma.algnLvl (v : Vma O N) : Nat := v.pageLvl.getD 0

def Vma.overlaps (v : Vma O N) (vstart vend : Nat) : Bool := decide (v.start < vend) && decide (vstart < v.stop)

structure Vas (O N P : Type) where
  vmaBase : Nat
  vmaList : List (Vma O N)
  pt : P

/-- What is fixed for an address space: the valid ranges of the architecture (`uk_paging_vaddr_range_isvalid`), and
the types that have a `set_attr` operation. -/
structure Config (O : Type) where
  rangeIsvalid : Nat → Nat → Bool
  hasSetAttr : O → Bool

inductive SplitError
  | EPERM
  | ENOMEM
  deriving DecidableEq

def SplitError.errno : SplitError → Errno
  | .EPERM => .EPERM
  | .ENOMEM => .ENOMEM

/-- What the callees of one call do: the base address, if the type has the operation; the flags and the name of the
new area, or why there is none; whether an area may be split or merged; and the page table after an operation, or none
if it fails, which is fatal. -/
structure Env (O N P : Type) where
  getBase : Option Nat
  new : Except Errno (Nat × Option N)
  split : Vma O N → Nat → Option SplitError
  merge : Vma O N → Vma O N → Bool
  unmap : Vma O N → P → Option P
  setAttr : Vma O N → Nat → P → Option P
  populate : Vma O N → P → P × Option Errno

def vmemVmaFind (l : List (Vma O N)) (vaddr len : Nat) : Option (Option (Vma O N)) :=
  if vaddrMax < vaddr + len then none else some (l.find? fun v => v.overlaps vaddr (vaddr + max len 1))

/-- The areas of a range: those `before` it, those of it up to the last one, which is `vmaEnd`, and those `after`
it. -/
structure Found (O N : Type) where
  vaddr : Nat
  vend : Nat
  before : List (Vma O N)
  init : List (Vma O N)
  vmaEnd : Vma O N
  after : List (Vma O N)

def Found.vmaStart (f : Found O N) : Vma O N := f.init.headD f.vmaEnd

def Found.mid (f : Found O N) : List (Vma O N) := f.init ++ [f.vmaEnd]

def Found.list (f : Found O N) : List (Vma O N) := f.before ++ f.mid ++ f.after

/-- The loop that looks for the end, from the area `cur` on: the areas before the last one, the last one, and those
after it. -/
def findEnd (strict : Bool) (vend : Nat) (cur : Vma O N) :
    List (Vma O N) → Except Errno (List (Vma O N) × Vma O N × List (Vma O N))
  | [] => .ok ([], cur, [])
  | next :: rest =>
    if cur.start < vend ∧ vend ≤ cur.stop then .ok ([], cur, next :: rest)
    else if strict = true ∧ cur.stop ≠ next.start then .error .ENOENT
    else if vend ≤ next.start then .ok ([], cur, next :: rest)
    else
      match findEnd strict vend next rest with
      | .error e => .error e
      | .ok (init, vmaEnd, after) => .ok (cur :: init, vmaEnd, after)

def clipStart (strict : Bool) (vstart : Nat) (v : Vma O N) : Except Errno Nat :=
  if vstart < v.start then if strict then .error .ENOENT else .ok v.start
  else if v.start < vstart ∧ pageLxAligned vstart v.algnLvl = false then .error .EINVAL
  else .ok vstart

def clipEnd (strict : Bool) (vend : Nat) (v : Vma O N) : Except Errno Nat :=
  if v.stop < vend then if strict then .error .ENOENT else .ok v.stop
  else if vend < v.stop ∧ pageLxAligned vend v.algnLvl = false then .error .EINVAL
  else .ok vend

/-- The assertions about a range of length `vl` that was found. -/
def Found.checked (cfg : Config O) (f : Found O N) (vl : Nat) : Bool :=
  pageLxAligned f.vend f.vmaEnd.algnLvl && decide (f.vaddr < f.vend) &&
    decide (f.vmaStart.start ≤ f.vaddr ∧ f.vaddr < f.vmaStart.stop) &&
    decide (f.vmaEnd.start < f.vend ∧ f.vend ≤ f.vmaEnd.stop) &&
    decide (f.vaddr + vl - 1 ≤ vaddrMax) && cfg.rangeIsvalid f.vaddr vl

def vmemVmaFindRange (cfg : Config O) (l : List (Vma O N)) (vaddr len : Nat) (strict : Bool) :
    Option (Except Errno (Found O N)) :=
  if vaddrMax < vaddr + len then none
  else
    let overlapping (v : Vma O N) := v.overlaps vaddr (vaddr + max len 1)
    match l.dropWhile fun v => !overlapping v with
    | [] => some (.error .ENOENT)
    | vmaStart :: rest =>
      match clipStart strict vaddr vmaStart with
      | .error e => some (.error e)
      | .ok vstart =>
        if pageLxAligned vstart vmaStart.algnLvl = false then none
        else
          match findEnd strict (vaddr + len) vmaStart rest with
          | .error e => some (.error e)
          | .ok (init, vmaEnd, after) =>
            match clipEnd strict (vaddr + len) vmaEnd with
            | .error e => some (.error e)
            | .ok vend =>
              let f := ⟨vstart, vend, l.takeWhile fun v => !overlapping v, init, vmaEnd, after⟩
              if f.checked cfg len then some (.ok f) else none

section
variable [DecidableEq O] [DecidableEq N]

def vmemVmaCanMerge (v next : Vma O N) : Bool := decide (v.stop = next.start) && decide (v.props = next.props)

variable (env : Env O N P)

def tryMergeWithNext (v : Vma O N) : List (Vma O N) → Vma O N × List (Vma O N)
  | [] => (v, [])
  | next :: rest =>
    if vmemVmaCanMerge v next && env.merge v next then ({ v with stop := next.stop }, rest) else (v, next :: rest)

def tryMergeWithPrev (before : List (Vma O N)) (v : Vma O N) : List (Vma O N) :=
  match before.getLast? with
  | none => [v]
  | some prev =>
    if vmemVmaCanMerge prev v && env.merge prev v then before.dropLast ++ [{ prev with stop := v.stop }]
      else before ++ [v]

def vmemVmaTryMerge (before : List (Vma O N)) (v : Vma O N) (after : List (Vma O N)) : List (Vma O N) :=
  let r := tryMergeWithNext env v after
  tryMergeWithPrev env before r.1 ++ r.2

def insertAndMerge (l : List (Vma O N)) (v : Vma O N) : Option (List (Vma O N)) :=
  match vmemVmaFind l v.start (v.stop - v.start) with
  | none | some (some _) => none
  | some none =>
    let below (cur : Vma O N) := decide (cur.stop ≤ v.start)
    some (vmemVmaTryMerge env (l.takeWhile below) v (l.dropWhile below))

/-- `vmem_vma_split`: whether it is done, where the assertions hold. -/
def vmemVmaSplit (v : Vma O N) (vaddr : Nat) : Option (Except Errno Unit) :=
  if v.start ≤ vaddr ∧ vaddr < v.stop ∧ pageLxAligned vaddr v.algnLvl = true ∧
      pageLxAligned (v.stop - vaddr) v.algnLvl = true then
    match env.split v vaddr with
    | some e => some (.error e.errno)
    | none => some (.ok ())
  else none

def vmemVmaNeedSplit (v : Vma O N) (len : Nat) (attr : Option Nat) : Bool :=
  decide (0 < len) && decide (attr ≠ some v.attr)

variable (f : Found O N)

/-- The first area is cut at the start of the range, and its first part is before the range then. -/
def Found.cutStart : Found O N :=
  match f.init with
  | [] =>
    { f with before := f.before ++ [{ f.vmaEnd with stop := f.vaddr }], vmaEnd := { f.vmaEnd with start := f.vaddr } }
  | s :: init =>
    { f with before := f.before ++ [{ s with stop := f.vaddr }], init := { s with start := f.vaddr } :: init }

def Found.cutEnd : Found O N :=
  { f with vmaEnd := { f.vmaEnd with stop := f.vend }, after := { f.vmaEnd with start := f.vend } :: f.after }

variable (attr : Option Nat)

/-- The area `v` is split at `x`, so that the areas are those of `cut`, if the part of length `len` has to be split
off. -/
def Found.splitAt (f cut : Found O N) (v : Vma O N) (len x : Nat) : Option (Except Errno (Found O N)) :=
  if vmemVmaNeedSplit v len attr then (vmemVmaSplit env v x).map fun r => r.map fun _ => cut else some (.ok f)

def Found.splitStart : Option (Except Errno (Found O N)) :=
  f.splitAt env attr f.cutStart f.vmaStart (f.vaddr - f.vmaStart.start) f.vaddr

def Found.splitEnd : Option (Except Errno (Found O N)) :=
  f.splitAt env attr f.cutEnd f.vmaEnd (f.vmaEnd.stop - f.vend) f.vend

def Found.tryMergeStart : List (Vma O N) :=
  match f.init with
  | [] => vmemVmaTryMerge env f.before f.vmaEnd f.after
  | s :: init => vmemVmaTryMerge env f.before s (init ++ f.vmaEnd :: f.after)

variable (cfg : Config O)

/-- `vmem_vma_split_vmas`: the areas of the range, or an error with the areas as they are then. -/
def vmemVmaSplitVmas (env : Env O N P) (l : List (Vma O N)) (vaddr len : Nat) (attr : Option Nat)
    (strict : Bool) : Option (Except (Errno × List (Vma O N)) (Found O N)) :=
  match vmemVmaFindRange cfg l vaddr len strict with
  | none => none
  | some (.error e) => some (.error (e, l))
  | some (.ok f) =>
    match f.splitStart env attr with
    | none => none
    | some (.error e) => some (.error (e, l))
    | some (.ok f₁) =>
      match f₁.splitEnd env attr with
      | none => none
      | some (.error e) => some (.error (e, f₁.tryMergeStart env))
      | some (.ok f₂) => some (.ok f₂)

variable (flags : Nat)

def strictFlag : Bool := flags.testBit 12

/-- What `uk_vma_unmap` and `uk_vma_set_attr` have in common: the areas of the range are split off, and `act` is done
to them. -/
def onRange (env : Env O N P) (vas : Vas O N P) (vaddr len flags : Nat) (attr : Option Nat)
    (act : Found O N → P → Option (List (Vma O N) × P)) : Option (Vas O N P × Except Errno Unit) :=
  if len = 0 then some (vas, .ok ())
  else
    match vmemVmaSplitVmas cfg env vas.vmaList vaddr len attr (strictFlag flags) with
    | none => none
    | some (.error (e, l)) =>
      some ({ vas with vmaList := l }, if e = .ENOENT ∧ strictFlag flags = false then .ok () else .error e)
    | some (.ok f) => (act f vas.pt).map fun r => ({ vas with vmaList := r.1, pt := r.2 }, .ok ())

def vmemVmaUnmap (pt : P) (v : Vma O N) : Option P :=
  if v.start < v.stop ∧ v.stop ≤ vaddrMax ∧ pageLxAligned v.start v.algnLvl = true ∧
      pageLxAligned (v.stop - v.start) v.algnLvl = true then
    env.unmap v pt
  else none

def unmapAndFreeVmas (env : Env O N P) : List (Vma O N) → P → Option P
  | [], pt => some pt
  | v :: l, pt =>
    match vmemVmaUnmap env pt v with
    | none => none
    | some pt => unmapAndFreeVmas env l pt

def ukVmaUnmap (env : Env O N P) (vas : Vas O N P) (vaddr len flags : Nat) : Option (Vas O N P × Except Errno Unit) :=
  onRange cfg env vas vaddr len flags none fun f pt =>
    (unmapAndFreeVmas env f.mid pt).map fun pt => (f.before ++ f.after, pt)

def vmemVmaSetAttr (env : Env O N P) (attr : Nat) (v : Vma O N) (pt : P) : Option (Vma O N × P) :=
  if v.attr = attr then some (v, pt)
  else if cfg.hasSetAttr v.ops = false then some (v, pt)
  else (env.setAttr v attr pt).map fun pt => ({ v with attr := attr }, pt)

def setAttrVmas (cfg : Config O) (env : Env O N P) (attr : Nat) : List (Vma O N) → P → Option (List (Vma O N) × P)
  | [], pt => some ([], pt)
  | v :: l, pt =>
    match vmemVmaSetAttr cfg env attr v pt with
    | none => none
    | some (v, pt) => (setAttrVmas cfg env attr l pt).map fun r => (v :: r.1, r.2)

/-- The second pass: the last area is merged with the next one, and then each area of the range with the one before
it. -/
def mergeVmas (before init : List (Vma O N)) (vmaEnd : Vma O N) (after : List (Vma O N)) : List (Vma O N) :=
  let r := tryMergeWithNext env vmaEnd after
  (init ++ [r.1]).foldl (tryMergeWithPrev env) before ++ r.2

def vmemVmaSetAttrVmas (env : Env O N P) (attr : Nat) (f : Found O N) (pt : P) : Option (List (Vma O N) × P) :=
  match setAttrVmas cfg env attr f.init pt with
  | none => none
  | some (init, pt) =>
    (vmemVmaSetAttr cfg env attr f.vmaEnd pt).map fun r => (mergeVmas env f.before init r.1 f.after, r.2)

def ukVmaSetAttr (env : Env O N P) (vas : Vas O N P) (vaddr len attr flags : Nat) :
    Option (Vas O N P × Except Errno Unit) :=
  onRange cfg env vas vaddr len flags (some attr) (vmemVmaSetAttrVmas cfg env attr)

def vmemFirstFit (base align len : Nat) : Nat → List (Vma O N) → Nat
  | vaddr, [] => if vaddrMax - align < vaddr then vaddrInv else alignUp vaddr align
  | vaddr, cur :: l =>
    if vaddrMax - align < vaddr then vaddrInv
    else if vaddrMax - len < alignUp vaddr align then vaddrInv
    else if alignUp vaddr align + len ≤ cur.start then alignUp vaddr align
    else vmemFirstFit base align len (max cur.stop base) l

def mapOrder : Nat := (flags >>> 5) % 64

def mapLvl : Option Nat := if 0 < mapOrder flags then some (pageShiftLx (mapOrder flags)) else none

/-- The flags of the new area: the high word, and whether its memory is to be initialised. -/
def vmaFlags : Nat := (flags >>> 32) <<< 32 ||| if flags.testBit 1 then 1 else 0

def replaceFlag : Bool := flags.testBit 2

def populateFlag : Bool := flags.testBit 0

structure MapArgs (O N : Type) where
  len : Nat
  attr : Nat
  flags : Nat
  name : Option N
  ops : O

/-- The area that `uk_vma_map` makes, when the operation `new` has answered with flags and a name. -/
def MapArgs.vma (m : MapArgs O N) (va len flags : Nat) (name : Option N) : Vma O N :=
  ⟨va, va + len, m.ops, m.attr, vmaFlags flags, mapLvl m.flags, m.name.or name⟩

/-- The rest of `uk_vma_map`, when the address and the length are known: the areas `mid` are replaced, and the areas
`kept` stay. -/
def mapAt (env : Env O N P) (vas : Vas O N P) (m : MapArgs O N) (va len : Nat) (mid kept : List (Vma O N)) :
    Option (Vas O N P × Except Errno Nat) :=
  if vaddrMax < va + len then none
  else if cfg.rangeIsvalid va len = false then some (vas, .error .ENOMEM)
  else
    match env.new with
    | .error e => some (vas, .error e)
    | .ok (flags, name) =>
      match unmapAndFreeVmas env mid vas.pt with
      | none => none
      | some pt =>
        match vmemVmaFind kept va len with
        | none | some (some _) => none
        | some none =>
          let vma := m.vma va len flags name
          let r := if populateFlag flags then env.populate vma pt else (pt, none)
          match r.2 with
          | some e => some ({ vas with vmaList := kept, pt := r.1 }, .error e)
          | none =>
            match insertAndMerge env kept vma with
            | none => none
            | some l => some ({ vas with vmaList := l, pt := r.1 }, .ok va)

def ukVmaMap (env : Env O N P) (vas : Vas O N P) (vaddr : Nat) (m : MapArgs O N) :
    Option (Vas O N P × Except Errno Nat) :=
  let algnLvl := (mapLvl m.flags).getD 0
  if m.len = 0 then none
  else if 0 < mapOrder m.flags ∧ (mapOrder m.flags < 12 ∨ pageLxHas algnLvl = false) then none
  else if pageLxAligned m.len algnLvl = false then some (vas, .error .EINVAL)
  else if vaddr = vaddrAny then
    let base := env.getBase.getD vas.vmaBase
    let va := vmemFirstFit base (pageLxSize algnLvl) m.len base vas.vmaList
    if va = vaddrInv then some (vas, .error .ENOMEM) else mapAt cfg env vas m va m.len [] vas.vmaList
  else if pageLxAligned vaddr algnLvl = false then some (vas, .error .EINVAL)
  else
    match vmemVmaFind vas.vmaList vaddr m.len with
    | none => none
    | some none => mapAt cfg env vas m vaddr m.len [] vas.vmaList
    | some (some _) =>
      if replaceFlag m.flags = false then some (vas, .error .EEXIST)
      else
        match vmemVmaSplitVmas cfg env vas.vmaList vaddr m.len none (strictFlag m.flags) with
        | none => none
        | some (.error (e, l)) => some ({ vas with vmaList := l }, .error e)
        | some (.ok f) =>
          -- The new length is that of the areas that were found, whatever was asked for.
          if f.vmaEnd.stop ≤ f.vmaStart.start then none
          else
            mapAt cfg env { vas with vmaList := f.list } m vaddr (f.vmaEnd.stop - f.vmaStart.start) f.mid
              (f.before ++ f.after)

end

open Areas List Vma Bool

abbrev view (l : List (Vma O N)) (a : Nat) : Option (Props O N) := look start stop props l a

/-- What holds of the ends of areas of each page level; it holds of each aligned address. -/
structure Ends where
  holds : Option Nat → Nat → Prop
  aligned : ∀ {lvl : Option Nat} {a : Nat}, pageLxAligned a (lvl.getD 0) = true → holds lvl a

/-- The areas are in order and apart, and their ends are as they should be. -/
abbrev Sound (E : Ends) (l : List (Vma O N)) : Prop :=
  Apart start stop (fun v => E.holds v.pageLvl v.start ∧ E.holds v.pageLvl v.stop) l

structure Reshaped (E : Ends) (l l' : List (Vma O N)) : Prop where
  view : ∀ a, view l' a = view l a
  sound : Sound E l'

variable {E : Ends} {l l₁ l₂ A B : List (Vma O N)} {v w : Vma O N} {a vaddr len : Nat} {rest : List (Vma O N)}
  {strict : Bool} {x : Nat} {vend : Nat}

theorem Reshaped.refl (h : Sound E l) : Reshaped E l l := ⟨fun _ => rfl, h⟩

theorem Reshaped.trans (h : Reshaped E l l₁) (h' : Reshaped E l₁ l₂) : Reshaped E l l₂ :=
  ⟨fun a => (h'.view a).trans (h.view a), h'.sound⟩

/-- An area is split at an aligned address. -/
theorem reshaped_split (h : Sound E (A ++ v :: B)) (h1 : v.start < x) (h2 : x < v.stop)
    (hx : pageLxAligned x v.algnLvl = true) : Reshaped E (A ++ v :: B)
    (A ++ { v with stop := x } :: { v with start := x } :: B) := by
  have hv := (h.each v (by simp)).2
  have hj : Joined start stop props { v with stop := x } { v with start := x } v := ⟨rfl, rfl, rfl, rfl, rfl⟩
  exact ⟨fun a => hj.look_eq (Nat.le_of_lt h1) (Nat.le_of_lt h2),
    hj.split ⟨h1, hv.1, E.aligned hx⟩ ⟨h2, E.aligned hx, hv.2⟩ h⟩

section
variable [DecidableEq O] [DecidableEq N] (env : Env O N P)

private theorem reshaped_merge (h : Sound E (A ++ v :: w :: B)) (hm : vmemVmaCanMerge v w = true) :
    Reshaped E (A ++ v :: w :: B) (A ++ { v with stop := w.stop } :: B) := by
  simp only [vmemVmaCanMerge, and_eq_true, decide_eq_true_eq] at hm
  obtain ⟨hv, hv'⟩ := h.each v (by simp)
  obtain ⟨hw, hw'⟩ := h.each w (by simp)
  have hlvl : w.pageLvl = v.pageLvl := congrArg Props.pageLvl hm.2.symm
  have hj : Joined start stop props v w { v with stop := w.stop } := ⟨rfl, hm.1, rfl, rfl, hm.2.symm⟩
  exact ⟨fun a => (hj.look_eq (Nat.le_of_lt hv) (Nat.le_of_lt hw)).symm, hj.merge ⟨hv'.1, hlvl ▸ hw'.2⟩ h⟩

section
variable (h : Sound E (A ++ v :: B))
include h

/-- A merge with the next area shows the same. -/
theorem reshaped_tryMergeWithNext : Reshaped E (A ++ v :: B)
    (A ++ (tryMergeWithNext env v B).1 :: (tryMergeWithNext env v B).2) := by
  cases B with
  | nil => exact Reshaped.refl h
  | cons w B =>
    simp only [tryMergeWithNext]
    split
    next hm => exact reshaped_merge h (and_eq_true _ _ ▸ hm).1
    next => exact Reshaped.refl h

private theorem reshaped_tryMergeWithPrev : Reshaped E (A ++ v :: B) (tryMergeWithPrev env A v ++ B) := by
  rcases eq_nil_or_concat A with rfl | ⟨A, w, rfl⟩
  · exact Reshaped.refl h
  · simp only [tryMergeWithPrev, concat_eq_append, List.getLast?_append, List.getLast?_singleton, Option.some_or,
      dropLast_concat]
    simp only [concat_eq_append, append_assoc, singleton_append] at h ⊢
    split
    next hm =>
      rw [append_assoc]
      exact reshaped_merge h (and_eq_true _ _ ▸ hm).1
    next =>
      simp only [append_assoc, cons_append, nil_append]
      exact Reshaped.refl h

theorem reshaped_tryMerge : Reshaped E (A ++ v :: B) (vmemVmaTryMerge env A v B) := by
  have h1 := reshaped_tryMergeWithNext env h
  exact h1.trans (reshaped_tryMergeWithPrev env h1.sound)

end

/-- By induction on the areas: merging each with the one before shows the same. -/
theorem reshaped_foldl {m : List (Vma O N)} (h : Sound E (A ++ (m ++ B))) :
    Reshaped E (A ++ (m ++ B)) (m.foldl (tryMergeWithPrev env) A ++ B) := by
  induction m generalizing A with
  | nil => exact Reshaped.refl h
  | cons v m ih =>
    have h1 := reshaped_tryMergeWithPrev env h
    exact h1.trans (ih h1.sound)

end

/-- The end of the range is in the last area or after it, and the other areas are behind the range. A strict search
has met no hole up to there, and fails at the first one. -/
theorem findEnd_spec (strict : Bool) {cur : Vma O N} (hs : Sound E (cur :: rest)) (hcur : cur.start < vend) :
    match findEnd strict vend cur rest with
    | .ok (init, vmaEnd, after) =>
      init ++ vmaEnd :: after = cur :: rest ∧ vmaEnd.start < vend ∧ (∀ v ∈ after, vend ≤ v.start) ∧
        (strict = true → ∀ a, cur.start ≤ a → a < vmaEnd.stop → view (cur :: rest) a ≠ none)
    | .error e => e = .ENOENT ∧ strict = true ∧ ∃ a, cur.start ≤ a ∧ a < vend ∧ view (cur :: rest) a = none := by
  induction rest generalizing cur with
  | nil =>
    refine ⟨rfl, hcur, by simp, fun _ a h1 h2 => ?_⟩
    simp [hs.look_of_mem mem_cons_self h1 h2]
  | cons next rest ih =>
    obtain ⟨⟨hne, -⟩, hrest, hnext⟩ := apart_cons.1 hs
    have hhead (a : Nat) (h1 : cur.start ≤ a) (h2 : a < cur.stop) : view (cur :: next :: rest) a ≠ none := by
      simp [hs.look_of_mem mem_cons_self h1 h2]
    have hle := hnext next mem_cons_self
    rw [findEnd]
    by_cases hin : cur.start < vend ∧ vend ≤ cur.stop
    · rw [if_pos hin]
      exact ⟨rfl, hcur, fun v hv => Nat.le_trans hin.2 (hnext v hv), fun _ => hhead⟩
    rw [if_neg hin]
    by_cases hgap : strict = true ∧ cur.stop ≠ next.start
    · rw [if_pos hgap]
      refine ⟨rfl, hgap.1, cur.stop, Nat.le_of_lt hne, by omega, ?_⟩
      rw [view, look_cons_of_le (Nat.le_refl _)]
      exact look_of_lt fun v hv => Nat.lt_of_lt_of_le (Nat.lt_of_le_of_ne hle hgap.2) (hrest.head_le hv)
    rw [if_neg hgap]
    by_cases hend : vend ≤ next.start
    · rw [if_pos hend]
      exact ⟨rfl, hcur, fun v hv => Nat.le_trans hend (hrest.head_le hv), fun _ => hhead⟩
    rw [if_neg hend]
    have h := ih hrest (Nat.lt_of_not_le hend)
    cases hf : findEnd strict vend next rest with
    | error e =>
      rw [hf] at h
      obtain ⟨he, hst, a, h1, h2, h3⟩ := h
      exact ⟨he, hst, a, by omega, h2, (look_cons_of_le (by omega)).trans h3⟩
    | ok r =>
      rw [hf] at h
      obtain ⟨hlist, hlast, hafter, hfull⟩ := h
      refine ⟨by rw [cons_append, hlist], hlast, hafter, fun hst a h1 h2 => ?_⟩
      by_cases ha : a < cur.stop
      · exact hhead a h1 ha
      · have hadj : cur.stop = next.start := by_contra fun hne => hgap ⟨hst, hne⟩
        rw [view, look_cons_of_le (Nat.le_of_not_lt ha)]
        exact hfull hst a (by omega) h2

/-- The range `[vaddr, vend)` was found in the areas `l`. -/
structure Found.Spans (f : Found O N) (l : List (Vma O N)) (vaddr vend : Nat) : Prop where
  list : f.list = l
  lt : f.vaddr < f.vend
  clipStart : f.vaddr = max vaddr f.vmaStart.start
  clipEnd : f.vend = min vend f.vmaEnd.stop
  start : f.vaddr < f.vmaStart.stop
  stop : f.vmaEnd.start < f.vend
  alignedStart : pageLxAligned f.vaddr f.vmaStart.algnLvl = true
  alignedEnd : pageLxAligned f.vend f.vmaEnd.algnLvl = true
  before : ∀ v ∈ f.before, v.stop ≤ vaddr
  after : ∀ v ∈ f.after, vend ≤ v.start

def Hole (l : List (Vma O N)) (vaddr len : Nat) : Prop := ∃ a, vaddr ≤ a ∧ a < vaddr + len ∧ view l a = none

/-- The area that the start of the range is in, if there is one, has pages that the start is aligned to. -/
def StartAligned (l : List (Vma O N)) (vaddr : Nat) : Prop :=
  ∀ v ∈ l, v.start ≤ vaddr → vaddr < v.stop → pageLxAligned vaddr v.algnLvl = true

/-- Why a range was not found: it has a hole, and is one if the search was not strict; or for another reason, and then
a strict search has met no hole, except that it looks at the start first. -/
def Missed (l : List (Vma O N)) (vaddr len : Nat) (strict : Bool) (e : Errno) : Prop :=
  (e = .ENOENT ∧ Hole l vaddr len ∧ (strict = false → ∀ a, vaddr ≤ a → a < vaddr + len → view l a = none)) ∨
    (e ≠ .ENOENT ∧ (strict = true → StartAligned l vaddr → ¬ Hole l vaddr len))

/-- The areas `A` end before the range, and `v` is the first one of the others, which the range begins in or
before. -/
structure Begins (E : Ends) (l : List (Vma O N)) (vaddr len : Nat) (A : List (Vma O N)) (v : Vma O N)
    (rest : List (Vma O N)) : Prop where
  start : v.start < vaddr + len
  stop : vaddr < v.stop
  before : ∀ w ∈ A, w.stop ≤ vaddr
  sound : Sound E (v :: rest)
  list : A ++ v :: rest = l

private theorem Sound.begins (h : Sound E l) (hlen : 0 < len)
    (hd : l.dropWhile (fun v => !v.overlaps vaddr (vaddr + max len 1)) = v :: rest) :
    Begins E l vaddr len (l.takeWhile fun v => !v.overlaps vaddr (vaddr + max len 1)) v rest := by
  have hl := takeWhile_append_dropWhile (p := fun v : Vma O N => !v.overlaps vaddr (vaddr + max len 1)) (l := l)
  rw [hd] at hl
  have hv := List.head?_dropWhile_not (fun v : Vma O N => !v.overlaps vaddr (vaddr + max len 1)) l
  rw [hd] at hv
  simp only [List.head?_cons, overlaps, not_eq_false', and_eq_true, decide_eq_true_eq] at hv
  rw [← hl] at h
  obtain ⟨hA, hB, hAB⟩ := apart_append.1 h
  refine ⟨by omega, hv.2, fun w hw => ?_, hB, hl⟩
  have hno := mem_takeWhile_imp hw
  simp only [overlaps, not_eq_true', and_eq_false_iff, decide_eq_false_iff_not] at hno
  have h1 := hAB w hw v mem_cons_self
  have h2 := (hA.each w hw).1
  omega

private theorem Begins.mem (h : Begins E l vaddr len A v rest) : v ∈ l := by
  rw [← h.list]
  exact mem_append_right _ mem_cons_self

/-- The areas before the range do not show in it. -/
private theorem Begins.view_eq (h : Begins E l vaddr len A v rest) (ha : vaddr ≤ a) :
    view l a = view (v :: rest) a := by
  rw [← h.list]
  exact look_append_of_le fun v hv => Nat.le_trans (h.before v hv) ha

private theorem clipStart_ok (h : clipStart strict vaddr v = .ok x) :
    x = max vaddr v.start ∧ (strict = true → v.start ≤ vaddr) := by
  unfold clipStart at h
  split_ifs at h <;> cases h
  · exact ⟨by omega, fun hst => by contradiction⟩
  · exact ⟨by omega, fun _ => by omega⟩

private theorem clipEnd_ok (h : clipEnd strict vend v = .ok x) :
    x = min vend v.stop ∧ (strict = true → vend ≤ v.stop) := by
  unfold clipEnd at h
  split_ifs at h <;> cases h
  · exact ⟨by omega, fun hst => by contradiction⟩
  · exact ⟨by omega, fun _ => by omega⟩

/-- What is known when an assertion fails: the range exceeds the addresses, the start of an area is not aligned, or a
strict search has met no hole. -/
def Stopped (l : List (Vma O N)) (vaddr len : Nat) (strict : Bool) : Prop :=
  vaddrMax < vaddr + len ∨ (∃ v ∈ l, pageLxAligned v.start v.algnLvl = false) ∨ (strict = true → ¬ Hole l vaddr len)

/-- No area overlaps the range, which therefore is a hole. -/
private theorem missed_of_dropWhile_nil (strict : Bool) (hlen : 0 < len)
    (hd : l.dropWhile (fun v => !v.overlaps vaddr (vaddr + max len 1)) = []) : Missed l vaddr len strict .ENOENT := by
  have hnone (a : Nat) (h1 : vaddr ≤ a) (h2 : a < vaddr + len) : view l a = none := by
    refine look_eq_none_iff.2 fun v hv hhas => ?_
    have hno := dropWhile_eq_nil_iff.1 hd v hv
    simp only [overlaps, not_eq_true', and_eq_false_iff, decide_eq_false_iff_not] at hno
    obtain ⟨h3, h4⟩ := hhas
    omega
  exact .inl ⟨rfl, ⟨vaddr, Nat.le_refl _, by omega, hnone vaddr (Nat.le_refl _) (by omega)⟩, fun _ => hnone⟩

/-- The start of the range is in no area, or it is not aligned to the pages of its area. -/
private theorem Begins.missed_start {e : Errno} (h : Begins E l vaddr len A v rest) (hlen : 0 < len)
    (hclip : clipStart strict vaddr v = .error e) : Missed l vaddr len strict e := by
  unfold clipStart at hclip
  split_ifs at hclip with hlt hst hal
  · cases hclip
    refine .inl ⟨rfl, ⟨vaddr, Nat.le_refl _, by omega, ?_⟩, fun hf => absurd hst (by simp [hf])⟩
    rw [h.view_eq (Nat.le_refl _)]
    exact look_of_lt fun w hw => Nat.lt_of_lt_of_le hlt (h.sound.head_le hw)
  · cases hclip
    refine .inr ⟨nofun, fun _ hsa => ?_⟩
    simp [hsa v h.mem (by omega) h.stop] at hal

/-- The start of the range was moved to that of the first area, or is that of the first area. -/
private theorem Begins.stopped_start (h : Begins E l vaddr len A v rest) (hclip : clipStart strict vaddr v = .ok x)
    (hal : pageLxAligned x v.algnLvl = false) : Stopped l vaddr len strict := by
  refine .inr (.inl ⟨v, h.mem, ?_⟩)
  unfold clipStart at hclip
  split_ifs at hclip with hlt hst hal' <;> cases hclip
  · exact hal
  · rw [Nat.le_antisymm (Nat.le_of_not_lt hlt) (Nat.le_of_not_lt fun h => hal' ⟨h, hal⟩)]
    exact hal

/-- A strict search has met a hole on its way to the end. -/
private theorem Begins.missed_end {e : Errno} (h : Begins E l vaddr len A v rest)
    (hf : findEnd strict (vaddr + len) v rest = .error e) : Missed l vaddr len strict e := by
  have hend := findEnd_spec strict h.sound h.start
  rw [hf] at hend
  obtain ⟨he, hst, a, h1, h2, h3⟩ := hend
  refine .inl ⟨he, ?_, fun hf => absurd hst (by simp [hf])⟩
  by_cases ha : vaddr ≤ a
  · exact ⟨a, ha, h2, (h.view_eq ha).trans h3⟩
  · have := h.stop
    rw [view, h.sound.look_of_mem mem_cons_self h1 (by omega)] at h3
    cases h3

/-- The range ends in or after the area `vmaEnd`, and before the areas `after`. -/
structure Ending (strict : Bool) (l : List (Vma O N)) (vaddr len : Nat) (v : Vma O N) (rest init : List (Vma O N))
    (vmaEnd : Vma O N) (after : List (Vma O N)) : Prop where
  list : init ++ vmaEnd :: after = v :: rest
  start : vmaEnd.start < vaddr + len
  after : ∀ v ∈ after, vaddr + len ≤ v.start
  noHole : strict = true → vaddr + len ≤ vmaEnd.stop → ¬ Hole l vaddr len

/-- A strict search that has come to the end of the range has met no hole. -/
private theorem Begins.ending {init after : List (Vma O N)} {vmaEnd : Vma O N} (h : Begins E l vaddr len A v rest)
    (hclip : clipStart strict vaddr v = .ok x)
    (hf : findEnd strict (vaddr + len) v rest = .ok (init, vmaEnd, after)) :
    Ending strict l vaddr len v rest init vmaEnd after := by
  have hend := findEnd_spec strict h.sound h.start
  rw [hf] at hend
  obtain ⟨hlist, hendlt, hafter, hfull⟩ := hend
  refine ⟨hlist, hendlt, hafter, fun hst hle => ?_⟩
  rintro ⟨a, h1, h2, hnone⟩
  have hstart := (clipStart_ok hclip).2 hst
  exact hfull hst a (by omega) (by omega) ((h.view_eq h1).symm.trans hnone)

section

variable {init after : List (Vma O N)} {vmaEnd : Vma O N}

/-- The end of the range is in no area, or it is not aligned to the pages of its area. -/
private theorem Ending.missed {e : Errno} (he : Ending strict l vaddr len v rest init vmaEnd after)
    (h : Begins E l vaddr len A v rest) (hlen : 0 < len) (hclip : clipEnd strict (vaddr + len) vmaEnd = .error e) :
    Missed l vaddr len strict e := by
  unfold clipEnd at hclip
  split_ifs at hclip with hlt hst hal
  · cases hclip
    have hsound := h.sound
    rw [← he.list] at hsound
    obtain ⟨-, hB, hAB⟩ := apart_append.1 hsound
    have hne := (hB.each vmaEnd mem_cons_self).1
    refine .inl ⟨rfl, ⟨max vaddr vmaEnd.stop, by omega, by omega, ?_⟩, fun hf => absurd hst (by simp [hf])⟩
    rw [h.view_eq (by omega), ← he.list, view,
      look_append_of_le fun v hv => (by have := hAB v hv vmaEnd mem_cons_self; omega), look_cons_of_le (by omega)]
    exact look_of_lt fun v hv => Nat.lt_of_lt_of_le (by omega) (he.after v hv)
  · cases hclip
    exact .inr ⟨nofun, fun hst _ => he.noHole hst (by omega)⟩

/-- The areas found are those of the list, and the assertions say the rest. -/
private theorem Ending.spans {cfg : Config O} {vend : Nat} (he : Ending strict l vaddr len v rest init vmaEnd after)
    (h : Begins E l vaddr len A v rest) (hstart : clipStart strict vaddr v = .ok x)
    (hal : pageLxAligned x v.algnLvl ≠ false) (hend : clipEnd strict (vaddr + len) vmaEnd = .ok vend)
    (hchecked : Found.checked cfg ⟨x, vend, A, init, vmaEnd, after⟩ len = true) :
    Found.Spans ⟨x, vend, A, init, vmaEnd, after⟩ l vaddr (vaddr + len) := by
  have hhead : init.headD vmaEnd = v := by cases init <;> exact (List.cons.inj he.list).1
  simp only [Found.checked, and_eq_true, decide_eq_true_eq] at hchecked
  refine ⟨?_, hchecked.1.1.1.1.2, ?_, (clipEnd_ok hend).1, hchecked.1.1.1.2.2, hchecked.1.1.2.1, ?_,
      hchecked.1.1.1.1.1,
    h.before, he.after⟩
  · show A ++ (init ++ [vmaEnd]) ++ after = l
    rw [append_assoc, append_assoc, singleton_append, he.list, h.list]
  · rw [Found.vmaStart, hhead]
    exact (clipStart_ok hstart).1
  · rw [Found.vmaStart, hhead]
    simpa using hal

end

/-- The search finds the areas that the range spans; if it does not, there is a hole or an end is not aligned. -/
theorem findRange_spec (cfg : Config O) (vaddr : Nat) (strict : Bool) (hs : Sound E l) (hlen : 0 < len) :
    match vmemVmaFindRange cfg l vaddr len strict with
    | none => Stopped l vaddr len strict
    | some (.error e) => Missed l vaddr len strict e
    | some (.ok f) => f.Spans l vaddr (vaddr + len) ∧ (strict = true → ¬ Hole l vaddr len) := by
  unfold vmemVmaFindRange
  by_cases hmax : vaddrMax < vaddr + len
  · rw [if_pos hmax]
    exact .inl hmax
  rw [if_neg hmax]
  dsimp only
  cases hdrop : l.dropWhile fun v => !v.overlaps vaddr (vaddr + max len 1) with
  | nil => exact missed_of_dropWhile_nil strict hlen hdrop
  | cons vmaStart rest =>
    have hbegins := hs.begins hlen hdrop
    dsimp only
    cases hclip : clipStart strict vaddr vmaStart with
    | error e => exact hbegins.missed_start hlen hclip
    | ok vstart =>
      dsimp only
      by_cases hal : pageLxAligned vstart vmaStart.algnLvl = false
      · rw [if_pos hal]
        exact hbegins.stopped_start hclip hal
      rw [if_neg hal]
      cases hf : findEnd strict (vaddr + len) vmaStart rest with
      | error e => exact hbegins.missed_end hf
      | ok r =>
        obtain ⟨init, vmaEnd, after⟩ := r
        have hending := hbegins.ending hclip hf
        dsimp only
        cases hclipEnd : clipEnd strict (vaddr + len) vmaEnd with
        | error e => exact hending.missed hbegins hlen hclipEnd
        | ok vend =>
          have hhole (hst : strict = true) := hending.noHole hst ((clipEnd_ok hclipEnd).2 hst)
          dsimp only
          split_ifs with hchecked
          · exact ⟨hending.spans hbegins hclip hal hclipEnd hchecked, hhole⟩
          · exact .inr (.inr hhole)

end Unikraft.Vmem
