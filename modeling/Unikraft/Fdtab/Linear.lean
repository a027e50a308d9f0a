import Mathlib.Data.List.Permutation
import Unikraft.Fdtab.Fmap

/-!
# The concurrent descriptor map is linearizable

A slot whose bit is 0 and that is null is owned by the thread that marked it as used or took its value out, or by a
critical section, and only the owner stores a value or marks it as free. A `uk_fmap_put` that finds the map full does
so when it reads the last word, if no index was freed behind the search (`State.Ahead`).
-/

namespace Unikraft.Fdtab

open Function (update update_eq_self update_idem update_of_ne update_self)
open Linearizable List Prog Runs Slots State

section
variable {T V : Type}

def Prog.owns : Prog V → Option Nat
  | .putStore _ _ pos => some pos
  | .takeFree idx _ | .cputReserve idx _ | .cputStore idx _ | .xPutReserve idx _ _ | .xPutStore idx _ _
  | .xStore idx _
  | .done (.criticalTake idx) (.ptr (some _)) => some idx.toNat
  | _ => none

/-- What the owner knows about its slot in the sequential map. -/
def Prog.Sees (id : Nat) : Prog V → Slot V → Prop
  | .putStore p _ _, x | .xStore _ p, x => x = .full p id
  | .takeFree _ got, x | .xPutReserve _ _ got, x | .xPutStore _ _ got, x => ∃ tag, x = .full got tag
  | .cputReserve _ _, x | .cputStore _ _, x | .done _ _, x => ∃ tag, x = .out tag
  | _, _ => True

def Prog.Ok (n : Nat) : Prog V → Prop
  | .scan _ min i => offset min / 64 ≤ i ∧ 64 * i < n
  | .reserve _ min pos | .putStore _ min pos => offset min ≤ pos ∧ pos < n
  | .takeTest idx | .takeXchg idx | .takeFree idx _ | .lookupRead idx | .lookupTest idx | .ctakeXchg idx
  | .ctakeTest idx
  | .cputReserve idx _ | .cputStore idx _ | .xReserve idx _ | .xTake idx _ | .xTest idx _ | .xPutReserve idx _ _
  | .xPutStore idx _ _ | .xStore idx _ => InRange n idx
  | .done _ _ => True

abbrev Threads (T V : Type) := T → Option (Nat × Prog V)

/-- `none` is a free or full slot, `some none` a critical section. -/
abbrev Owners (T : Type) := Nat → Option (Option T)

def SlotOk (bit : Bool) (m : Option V) (x : Slot V) : Option (Option T) → Prop
  | none => bit = true ∧ m = none ∧ x = .free ∨ bit = false ∧ ∃ v tag, m = some v ∧ x = .full v tag
  | some _ => bit = false ∧ m = none ∧ x ≠ .free

def MemOk (n : Nat) (bit : Nat → Bool) (map : Nat → Option V) (abs : Slots V) (own : Owners T) : Prop :=
  ∀ i < n, SlotOk (bit i) (map i) (abs i) (own i)

structure OwnOk (threads : Threads T V) (held : List Nat) (abs : Slots V) (own : Owners T) : Prop where
  owner : ∀ t i, own i = some (some t) ↔ ∃ id prog, threads t = some (id, prog) ∧ prog.owns = some i
  sees : ∀ t id prog i, threads t = some (id, prog) → prog.owns = some i → prog.Sees id (abs i)
  inSection : ∀ i, own i = some none ↔ i ∈ held
  out : ∀ i ∈ held, ∃ tag, abs i = .out tag
  nodup : held.Nodup

def Scanned (threads : Threads T V) (bit : Nat → Bool) : Prop :=
  ∀ t id p min i, threads t = some (id, .scan p min i) → ∀ j, offset min ≤ j → j < 64 * i → bit j = false

structure CallsOk (threads : Threads T V) (next : Nat) (hist : List (Event Nat (MapOp V) (MapRet V))) : Prop where
  invoked : ∀ t id prog, threads t = some (id, prog) → .inv id prog.op ∈ hist
  running : ∀ t id prog r, threads t = some (id, prog) → .res id r ∉ hist
  fresh : ∀ t id prog, threads t = some (id, prog) → id < next
  distinct : ∀ t t' id prog c, threads t = some (id, prog) → threads t' = some (id, c) → t = t'

structure HistOk [DecidableEq V] (n : Nat) (threads : Threads T V) (next : Nat)
    (hist : List (Event Nat (MapOp V) (MapRet V))) (log : List (MapDone V)) (abs : Slots V) : Prop where
  lin : Linearization (apply n) (fun _ => .free) hist log abs
  calls : CallsOk threads next hist
  entered : ∀ t id prog r, threads t = some (id, prog) → prog.lin = some r → ⟨id, prog.op, r⟩ ∈ log
  pending : ∀ t id prog, threads t = some (id, prog) → prog.lin = none → id ∉ log.map Done.id
  freshLog : ∀ id ∈ log.map Done.id, id < next

structure Inv [DecidableEq V] (n : Nat) (s : State T V) (own : Owners T) (abs : Slots V) : Prop where
  size : s.bmap.size = n
  mem : MemOk n s.bmap.bitmap.bit s.map abs own
  owners : OwnOk s.threads s.held abs own
  ok : ∀ t id prog, s.threads t = some (id, prog) → prog.Ok n
  scanned : Scanned s.threads s.bmap.bitmap.bit
  hist : HistOk n s.threads s.next s.hist s.log abs
  failed : s.failed = false

abbrev State.Consistent [DecidableEq V] (n : Nat) (s : State T V) : Prop := ∃ own abs, Inv n s own abs

end

section
variable {T V : Type} [DecidableEq T] {threads : Threads T V} {held : List Nat} {abs : Slots V} {own : Owners T}
    {t : T}
  {id i : Nat} {prog c : Prog V} {x : Slot V} {y : Option (Nat × Prog V)}

private theorem threads_update {t' : T} {id' : Nat} {q : Prog V}
    (h : update threads t y t' = some (id', q)) :
    t' = t ∧ y = some (id', q) ∨ t' ≠ t ∧ threads t' = some (id', q) := by
  by_cases htt : t' = t
  · rw [htt, update_self] at h
    exact .inl ⟨htt, h⟩
  · rw [update_of_ne htt] at h
    exact .inr ⟨htt, h⟩

def owned (y : Option (Nat × Prog V)) : Option Nat := y.bind fun th => th.2.owns

omit [DecidableEq T] in
private theorem owned_of (ht : threads t = some (id, prog)) : owned (threads t) = prog.owns := by
  rw [ht]
  rfl

section
variable (h : OwnOk threads held abs own)
include h

section

omit [DecidableEq T]

/-- The owner of a slot is the thread whose point owns it. -/
theorem OwnOk.owner_iff : own i = some (some t) ↔ owned (threads t) = some i := by
  rw [h.owner]
  simp [owned, Option.bind_eq_some_iff]

private theorem OwnOk.ne_held (hi : own i ≠ some none) {j : Nat} (hj : j ∈ held) : j ≠ i := by
  rintro rfl
  exact hi ((h.inSection j).2 hj)

private theorem OwnOk.inSection_update (hi : own i ≠ some none) {o : Option (Option T)}
    (ho : o ≠ some none) (j : Nat) : update own i o j = some none ↔ j ∈ held := by
  by_cases hji : j = i
  · rw [hji, ← h.inSection]
    simp [ho, hi]
  · rw [update_of_ne hji, h.inSection]

end

private theorem OwnOk.keep (howns : owned y = owned (threads t))
    (hsees : ∀ id' q i, y = some (id', q) → q.owns = some i → q.Sees id' (abs i)) :
    OwnOk (update threads t y) held abs own where
  owner t' i := by
    rw [h.owner_iff]
    by_cases htt : t' = t
    · subst htt
      rw [← howns]
      simp [owned, Option.bind_eq_some_iff]
    · rw [update_of_ne htt, ← h.owner_iff, h.owner]
  sees t' id' q i hq hi := by
    rcases threads_update hq with ⟨rfl, heq⟩ | ⟨-, hq⟩
    · exact hsees id' q i heq hi
    · exact h.sees t' id' q i hq hi
  inSection := h.inSection
  out := h.out
  nodup := h.nodup

end

/-- A slot that no one else owns changes: the thread owned it or will own it, and owns no other. -/
private theorem OwnOk.change {o : Option (Option T)} (h : OwnOk threads held abs own)
    (hold : own i = none ∧ owned (threads t) = none ∨ owned (threads t) = some i)
    (hnew : o = none ∧ owned y = none ∨ o = some (some t) ∧ owned y = some i)
    (hsees : ∀ id' q, y = some (id', q) → q.owns = some i → q.Sees id' x) :
    OwnOk (update threads t y) held (update abs i x) (update own i o) := by
  have hi : own i = none ∨ own i = some (some t) := hold.imp And.left h.owner_iff.2
  have ho : o = none ∨ o = some (some t) := hnew.imp And.left And.left
  have howner (t' : T) j : update own i o j = some (some t') ↔ owned (update threads t y t') = some j := by
    by_cases htt : t' = t
    · subst htt
      by_cases hji : j = i
      · rcases hnew with ⟨rfl, hy⟩ | ⟨rfl, hy⟩ <;> simp [hji, hy]
      · rw [update_of_ne hji, h.owner_iff]
        have hj : owned (threads t') ≠ some j := by rcases hold with ⟨-, ht⟩ | ht <;> simp [ht, Ne.symm hji]
        rcases hnew with ⟨-, hy⟩ | ⟨-, hy⟩ <;> simp [hj, hy, Ne.symm hji]
    · rw [update_of_ne htt, ← h.owner_iff]
      by_cases hji : j = i
      · rcases hi with hi | hi <;> rcases ho with rfl | rfl <;> simp [hji, hi, Ne.symm htt]
      · rw [update_of_ne hji]
  have hne : own i ≠ some none := by rcases hi with hi | hi <;> simp [hi]
  refine ⟨fun t' j => ?_, fun t' id' q j hq hj => ?_, h.inSection_update hne ?_, fun j hj => ?_, h.nodup⟩
  · rw [howner]
    simp [owned, Option.bind_eq_some_iff]
  · rcases threads_update hq with ⟨rfl, heq⟩ | ⟨htt, hq⟩
    · by_cases hji : j = i
      · rw [hji, update_self]
        exact hsees id' q heq (hji ▸ hj)
      · rcases hnew with ⟨-, hy⟩ | ⟨-, hy⟩ <;> simp [owned, heq, hj, hji] at hy
    · have hown := (h.owner t' j).2 ⟨id', q, hq, hj⟩
      have hji : j ≠ i := by
        rintro rfl
        rcases hi with hi | hi <;> simp [hown, htt] at hi
      rw [update_of_ne hji]
      exact h.sees t' id' q j hq hj
  · rcases ho with rfl | rfl <;> simp
  · rw [update_of_ne (h.ne_held hne hj)]
    exact h.out j hj

section

omit [DecidableEq T]

private theorem OwnOk.owner_update {o : Option (Option T)} (h : OwnOk threads held abs own)
    (hi : ∀ t, own i ≠ some (some t)) (ho : ∀ t, o ≠ some (some t)) (t' : T) (j : Nat) :
    update own i o j = some (some t') ↔ ∃ id prog, threads t' = some (id, prog) ∧ prog.owns = some j := by
  rw [← h.owner]
  by_cases hji : j = i
  · simp [hji, hi, ho]
  · rw [update_of_ne hji]

private theorem OwnOk.enter (h : OwnOk threads held abs own) (hfree : own i = none) (hx : ∃ tag, abs i = .out tag) :
    OwnOk threads (i :: held) abs (update own i (some none)) where
  owner := h.owner_update (by simp [hfree]) (by simp)
  sees := h.sees
  inSection j := by
    by_cases hji : j = i
    · simp [hji]
    · simp [hji, h.inSection]
  out j hj := by
    rcases mem_cons.1 hj with rfl | hj
    · exact hx
    · exact h.out j hj
  nodup := nodup_cons.2 ⟨fun hmem => h.ne_held (by simp [hfree]) hmem rfl, h.nodup⟩

private theorem OwnOk.leave (h : OwnOk threads held abs own) (hi : i ∈ held) :
    OwnOk threads (held.erase i) abs (update own i none) where
  owner := h.owner_update (by simp [(h.inSection i).2 hi]) (by simp)
  sees := h.sees
  inSection j := by
    rw [h.nodup.mem_erase_iff]
    by_cases hji : j = i
    · simp [hji]
    · simp [hji, h.inSection]
  out j hj := h.out j (mem_of_mem_erase hj)
  nodup := h.nodup.erase i

end

end

/-! ### The history and the log -/

section
variable {T V : Type} [DecidableEq T] [DecidableEq V] {n next : Nat} {threads : Threads T V}
  {hist : List (Event Nat (MapOp V) (MapRet V))} {log : List (MapDone V)} {abs abs' : Slots V} {t : T} {id : Nat}
  {prog c : Prog V} {op : MapOp V} {r : MapRet V}

structure CallOk (next : Nat) (hist : List (Event Nat (MapOp V) (MapRet V))) (log : List (MapDone V)) (id : Nat)
    (prog : Prog V) :
    Prop where
  invoked : .inv id prog.op ∈ hist
  running : ∀ r, .res id r ∉ hist
  fresh : id < next
  entered : ∀ r, prog.lin = some r → ⟨id, prog.op, r⟩ ∈ log
  pending : prog.lin = none → id ∉ log.map Done.id

omit [DecidableEq T] in
private theorem HistOk.callOk (h : HistOk n threads next hist log abs) (ht : threads t = some (id, prog)) :
    CallOk next hist log id prog :=
  ⟨h.calls.invoked t id prog ht, fun r => h.calls.running t id prog r ht, h.calls.fresh t id prog ht,
    fun r => h.entered t id prog r ht, h.pending t id prog ht⟩

omit [DecidableEq T] in
private theorem HistOk.others (h : HistOk n threads next hist log abs) (ht : threads t = some (id, prog)) :
    ∀ t' ≠ t, ∀ q, threads t' ≠ some (id, q) :=
  fun t' htt q hq => htt (h.calls.distinct t' t id q prog hq ht)

private theorem HistOk.change {y : Option (Nat × Prog V)} {next' : Nat}
    {hist' : List (Event Nat (MapOp V) (MapRet V))} {log' : List (MapDone V)} (h : HistOk n threads next hist log abs)
    (hlin : Linearization (apply n) (fun _ => .free) hist' log' abs')
    (hnew : ∀ id q, y = some (id, q) → CallOk next' hist' log' id q ∧ ∀ t' ≠ t, ∀ q', threads t' ≠ some (id, q'))
    (hold : ∀ t' ≠ t, ∀ id q, threads t' = some (id, q) → CallOk next' hist' log' id q)
    (hfresh : ∀ id ∈ log'.map Done.id, id < next') : HistOk n (update threads t y) next' hist' log' abs' := by
  have hcall t' id q (hq : update threads t y t' = some (id, q)) : CallOk next' hist' log' id q := by
    rcases threads_update hq with ⟨-, heq⟩ | ⟨htt, hq⟩
    · exact (hnew id q heq).1
    · exact hold t' htt id q hq
  refine ⟨hlin, ⟨fun t' id q hq => (hcall t' id q hq).invoked, fun t' id q r hq => (hcall t' id q hq).running r,
    fun t' id q hq => (hcall t' id q hq).fresh, ?_⟩, fun t' id q r hq => (hcall t' id q hq).entered r,
    fun t' id q hq => (hcall t' id q hq).pending, hfresh⟩
  intro t1 t2 id q1 q2 h1 h2
  rcases threads_update h1 with ⟨ht1, heq1⟩ | ⟨htt1, h1'⟩ <;> rcases threads_update h2 with ⟨ht2, heq2⟩ | ⟨htt2, h2'⟩
  · rw [ht1, ht2]
  · exact absurd h2' ((hnew id q1 heq1).2 t2 htt2 q2)
  · exact absurd h1' ((hnew id q2 heq2).2 t1 htt1 q1)
  · exact h.calls.distinct t1 t2 id q1 q2 h1' h2'

variable (h : HistOk n threads next hist log abs)
include h

private theorem HistOk.keep (ht : threads t = some (id, prog)) (hop : c.op = prog.op)
    (hlin : c.lin = prog.lin) : HistOk n (update threads t (some (id, c))) next hist log abs := by
  refine h.change h.lin (fun id' q hq => ?_) (fun t' _ id' q hq => h.callOk hq) h.freshLog
  cases hq
  have hcall := h.callOk ht
  refine ⟨⟨?_, hcall.running, hcall.fresh, fun r hr => ?_, fun hr => hcall.pending (hlin ▸ hr)⟩, h.others ht⟩
  · rw [hop]
    exact hcall.invoked
  · rw [hop]
    exact hcall.entered r (hlin ▸ hr)

private theorem HistOk.effect (ht : threads t = some (id, prog)) (hop : c.op = prog.op)
    (hlin : prog.lin = none) (hlin' : c.lin = some r) (happly : abs.apply n ⟨id, c.op, r⟩ = some abs') :
    HistOk n (update threads t (some (id, c))) next hist (log ++ [⟨id, c.op, r⟩]) abs' := by
  have hcall := h.callOk ht
  have hinv : .inv id c.op ∈ hist := hop ▸ hcall.invoked
  refine h.change (h.lin.lin (hcall.pending hlin) hinv hcall.running happly) (fun id' q hq => ?_)
    (fun t' htt id' q hq => ?_)
    fun id' hid => ?_
  · cases hq
    refine ⟨⟨hinv, hcall.running, hcall.fresh, fun r' hr => ?_, fun hr => ?_⟩, h.others ht⟩
    · rw [hlin'] at hr
      cases hr
      exact mem_append_right _ (mem_singleton.2 rfl)
    · rw [hlin'] at hr
      cases hr
  · have hcall' := h.callOk hq
    refine { hcall' with entered := fun r hr => mem_append_left _ (hcall'.entered r hr), pending := fun hr => ?_ }
    rw [map_append, mem_append, map_singleton, mem_singleton]
    rintro (hmem | rfl)
    · exact hcall'.pending hr hmem
    · exact h.others ht t' htt q hq
  · rw [map_append, mem_append, map_singleton, mem_singleton] at hid
    rcases hid with hid | rfl
    · exact h.freshLog id' hid
    · exact hcall.fresh

private theorem HistOk.call (hop : c.op = op) (hlin : c.lin = none) :
    HistOk n (update threads t (some (next, c))) (next + 1) (hist ++ [.inv next op]) log abs := by
  have hnew : next ∉ log.map Done.id := fun hmem => absurd (h.freshLog next hmem) (Nat.lt_irrefl next)
  have hres {id r} (hr : Event.res id r ∈ hist ++ [.inv next op]) : .res id r ∈ hist := by simpa using hr
  refine h.change (h.lin.inv hnew) (fun id' q hq => ?_) (fun t' _ id' q hq => ?_)
    fun id' hid => Nat.lt_succ_of_lt (h.freshLog id' hid)
  · cases hq
    refine ⟨⟨by simp [hop], fun r hr => ?_, Nat.lt_succ_self _, fun r hr => ?_, fun _ => hnew⟩, fun t' _ q' hq => ?_⟩
    · obtain ⟨op', hmem⟩ := h.lin.completed next r (hres hr)
      exact hnew (mem_map_of_mem hmem)
    · rw [hlin] at hr
      cases hr
    · exact absurd (h.calls.fresh t' _ q' hq) (Nat.lt_irrefl _)
  · have hcall := h.callOk hq
    exact { hcall with
      invoked := mem_append_left _ hcall.invoked
      running := fun r hr => hcall.running r (hres hr)
      fresh := Nat.lt_succ_of_lt hcall.fresh }

private theorem HistOk.call_done (happly : abs.apply n ⟨next, op, r⟩ = some abs) :
    HistOk n (update threads t (some (next, .done op r))) (next + 1) (hist ++ [.inv next op])
      (log ++ [⟨next, op, r⟩]) abs := by
  -- every operation has a point before it takes effect
  obtain ⟨first, hop, hlin⟩ : ∃ first : Prog V, first.op = op ∧ first.lin = none := by
    cases op with
    | put p min => exact ⟨.scan p min 0, rfl, rfl⟩
    | take idx => exact ⟨.takeTest idx, rfl, rfl⟩
    | lookup idx => exact ⟨.lookupRead idx, rfl, rfl⟩
    | xchg idx p => exact ⟨.xReserve idx p, rfl, rfl⟩
    | criticalTake idx => exact ⟨.ctakeXchg idx, rfl, rfl⟩
    | criticalPut idx p => exact ⟨.cputReserve idx p, rfl, rfl⟩
  have hcall := h.call (t := t) hop hlin
  have heffect := hcall.effect (c := .done op r) (update_self ..) hop.symm hlin rfl happly
  rw [update_idem] at heffect
  exact heffect

private theorem HistOk.ret (ht : threads t = some (id, .done op r)) :
    HistOk n (update threads t none) next (hist ++ [.res id r]) log abs := by
  refine h.change (h.lin.res (h.entered t id (.done op r) r ht rfl)) nofun (fun t' htt id' q hq => ?_) h.freshLog
  have hcall := h.callOk hq
  refine { hcall with invoked := mem_append_left _ hcall.invoked, running := fun r' hr => ?_ }
  rw [mem_append, mem_singleton] at hr
  rcases hr with hr | hr
  · exact hcall.running r' hr
  · cases hr
    exact h.others ht t' htt q hq

end

section
variable {T V : Type} {n i : Nat} {bit bit' : Nat → Bool} {map map' : Nat → Option V} {abs abs' : Slots V}
    {own own' : Owners T}
  (h : MemOk n bit map abs own)
include h

private theorem MemOk.update {x : Slot V} {o : Option (Option T)} (hbit : ∀ j, j ≠ i → bit' j = bit j)
    (hmap : ∀ j, j ≠ i → map' j = map j)
    (hi : SlotOk (bit' i) (map' i) x o) : MemOk n bit' map' (update abs i x) (update own i o) := by
  intro j hj
  by_cases hji : j = i
  · subst hji
    rwa [update_self, update_self]
  · rw [hbit j hji, hmap j hji, update_of_ne hji, update_of_ne hji]
    exact h j hj

section
variable (hi : i < n)
include hi

private theorem MemOk.cases : (bit i = true ∧ own i = none ∧ map i = none ∧ abs i = .free) ∨
      (bit i = false ∧ own i = none ∧ ∃ v tag, map i = some v ∧ abs i = .full v tag) ∨
      bit i = false ∧ (∃ o, own i = some o) ∧ map i = none ∧ abs i ≠ .free := by
  have hslot := h i hi
  cases ho : own i with
  | none =>
    rw [ho] at hslot
    rcases hslot with ⟨hb, hm, hx⟩ | ⟨hb, hm⟩
    · exact .inl ⟨hb, rfl, hm, hx⟩
    · exact .inr (.inl ⟨hb, rfl, hm⟩)
  | some o =>
    rw [ho] at hslot
    exact .inr (.inr ⟨hslot.1, ⟨o, rfl⟩, hslot.2⟩)

private theorem MemOk.free (hb : bit i = true) : own i = none ∧ map i = none ∧ abs i = .free := by
  rcases h.cases hi with hfree | ⟨hb', -⟩ | ⟨hb', -⟩
  · exact hfree.2
  all_goals
    rw [hb] at hb'
    cases hb'

private theorem MemOk.full {v : V} (hm : map i = some v) :
    own i = none ∧ bit i = false ∧ ∃ tag, abs i = .full v tag := by
  rcases h.cases hi with ⟨-, -, hm', -⟩ | ⟨hb, ho, w, tag, hm', hx⟩ | ⟨-, -, hm', -⟩ <;> rw [hm] at hm' <;> cases hm'
  exact ⟨ho, hb, tag, hx⟩

private theorem MemOk.owned {o : Option T} (ho : own i = some o) : bit i = false ∧ map i = none ∧ abs i ≠ .free := by
  have := h i hi
  rw [ho] at this
  exact this

private theorem MemOk.used (hb : bit i = false) : abs i ≠ .free := by
  rcases h.cases hi with ⟨hb', -⟩ | ⟨-, -, v, tag, -, hx⟩ | ⟨-, -, -, hx⟩
  · rw [hb] at hb'
    cases hb'
  · simp [hx]
  · exact hx

end

end

section
variable {T V : Type} [DecidableEq T] [DecidableEq V] {n i id : Nat} {s : State T V} {abs abs' : Slots V}
    {own own' : Owners T}
  {t : T} {prog c : Prog V} {bm' : UkBmap} {map' : Nat → Option V} {r : MapRet V} {f : Bool} {v : V} {x : Slot V}
  {log : List (MapDone V)} {a : MapOp V}

omit [DecidableEq V] in
private theorem logged_keep (hlin : c.lin = prog.lin) : logged log id prog.lin c = log := by
  unfold logged
  rw [hlin]
  cases prog.lin <;> rfl

omit [DecidableEq V] in
private theorem logged_effect (hlin : prog.lin = none) (hlin' : c.lin = some r) :
    logged log id prog.lin c = log ++ [⟨id, c.op, r⟩] := by
  unfold logged
  rw [hlin, hlin']

private theorem Inv.go_of (h : Inv n s own abs) (he : prog.exec s.bmap s.map = ⟨bm', map', c, f⟩)
    (hsize : bm'.size = n) (hf : f = false) (hmem : MemOk n bm'.bitmap.bit map' abs' own')
    (hown : OwnOk (update s.threads t (some (id, c))) s.held abs' own') (hok : c.Ok n)
    (hscan : Scanned (update s.threads t (some (id, c))) bm'.bitmap.bit)
    (hhist : HistOk n (update s.threads t (some (id, c))) s.next s.hist (logged s.log id prog.lin c) abs') :
    Inv n (s.go t id prog) own' abs' := by
  unfold go
  rw [he]
  refine ⟨hsize, hmem, hown, fun t' id' q hq => ?_, hscan, hhist, ?_⟩
  · rcases threads_update hq with ⟨-, heq⟩ | ⟨-, hq⟩
    · cases heq
      exact hok
    · exact h.ok t' id' q hq
  · rw [h.failed, hf]
    rfl

omit [DecidableEq V] in
private theorem Scanned.mono {bit bit' : Nat → Bool} {threads : Threads T V} (h : Scanned threads bit)
    (hbit : ∀ j, bit' j = true → bit j = true)
    (hnew : ∀ p min k, c = .scan p min k → ∀ j, offset min ≤ j → j < 64 * k →
      bit' j = false) : Scanned (update threads t (some (id, c))) bit' := by
  intro t' id' p min k hq j ho hj
  rcases threads_update hq with ⟨-, heq⟩ | ⟨-, hq⟩
  · cases heq
    exact hnew p min k rfl j ho hj
  · have := h t' id' p min k hq j ho hj
    cases hb : bit' j with
    | false => rfl
    | true =>
      rw [hbit j hb] at this
      cases this

section
variable (h : Inv n s own abs) (ht : s.threads t = some (id, prog))
include h ht

private theorem Inv.silent (he : prog.exec s.bmap s.map = ⟨bm', s.map, c, false⟩) (hsize : bm'.size = n)
    (hbit : ∀ j, bm'.bitmap.bit j = s.bmap.bitmap.bit j) (howns : c.owns = prog.owns)
    (hsees : ∀ i, prog.owns = some i → prog.Sees id (abs i) → c.Sees id (abs i)) (hop : c.op = prog.op)
    (hlin : c.lin = prog.lin) (hok : c.Ok n)
    (hscan : ∀ p min k, c = .scan p min k → ∀ j, offset min ≤ j → j < 64 * k → s.bmap.bitmap.bit j = false) :
    (s.go t id prog).Consistent n := by
  have hbit' : bm'.bitmap.bit = s.bmap.bitmap.bit := funext hbit
  refine ⟨own, abs, h.go_of he hsize rfl ?_ (h.owners.keep (howns.trans (owned_of ht).symm) ?_) hok ?_ ?_⟩
  · rw [hbit']
    exact h.mem
  · intro id' q i hq hi
    cases hq
    rw [howns] at hi
    exact hsees i hi (h.owners.sees t id prog i ht hi)
  · rw [hbit']
    exact h.scanned.mono (fun j hj => hj) hscan
  · rw [logged_keep hlin]
    exact h.hist.keep ht hop hlin

private theorem Inv.reads (he : prog.exec s.bmap s.map = ⟨s.bmap, s.map, .done a r, false⟩) (howns : prog.owns = none)
    (howns' : (done a r).owns = none) (hop : a = prog.op) (hlin : prog.lin = none)
    (happly : abs.apply n ⟨id, a, r⟩ = some abs) : (s.go t id prog).Consistent n := by
  refine ⟨own, abs, h.go_of he h.size rfl h.mem (h.owners.keep ?_ fun id' q i hq hi => ?_) trivial ?_ ?_⟩
  · rw [owned_of ht, howns]
    exact howns'
  · cases hq
    rw [howns'] at hi
    cases hi
  · exact h.scanned.mono (fun j hj => hj) nofun
  · rw [logged_effect hlin rfl]
    exact h.hist.effect ht hop hlin rfl happly

private theorem Inv.reserves (he : prog.exec s.bmap s.map = ⟨bm', s.map, c, false⟩) (hsize : bm'.size = n)
    (hi : i < n)
    (hb : s.bmap.bitmap.bit i = true) (hbit : ∀ j, bm'.bitmap.bit j = if j = i then false else s.bmap.bitmap.bit j)
    (howns : prog.owns = none) (howns' : c.owns = some i) (hsees : c.Sees id (.full v id)) (hop : c.op = prog.op)
    (hlin : prog.lin = none) (hlin' : c.lin = some r) (hok : c.Ok n)
    (happly : abs i = .free → abs.apply n ⟨id, c.op, r⟩ = some (update abs i (.full v id))) :
    (s.go t id prog).Consistent n := by
  obtain ⟨hown, hmap, habs⟩ := h.mem.free hi hb
  refine ⟨update own i (some (some t)), update abs i (.full v id), h.go_of he hsize rfl ?_ ?_ hok ?_ ?_⟩
  · refine h.mem.update (fun j hj => ?_) (fun _ _ => rfl) ?_
    · rw [hbit, if_neg hj]
    · rw [hbit, hmap]
      exact ⟨by simp, rfl, fun hf => by cases hf⟩
  · refine h.owners.change (.inl ⟨hown, (owned_of ht).trans howns⟩) (.inr ⟨rfl, howns'⟩) fun id' q hq _ => ?_
    cases hq
    exact hsees
  · refine h.scanned.mono (fun j hj => ?_) (fun p min k heq => ?_)
    · rw [hbit] at hj
      split at hj
      next => cases hj
      next => exact hj
    · rw [heq] at hlin'
      cases hlin'
  · rw [logged_effect hlin hlin']
    exact h.hist.effect ht hop hlin hlin' (happly habs)

private theorem Inv.takes (hi : i < n) (hm : s.map i = some v)
    (he : prog.exec s.bmap s.map = ⟨s.bmap, update s.map i none, c, false⟩) (howns : prog.owns = none)
    (howns' : c.owns = some i) (hok : c.Ok n) (hns : ∀ p min k, c ≠ .scan p min k)
    (hstep : ∀ tag, abs i = .full v tag → ∃ x : Slot V, x ≠ .free ∧ c.Sees id x ∧
      HistOk n (update s.threads t (some (id, c))) s.next s.hist (logged s.log id prog.lin c) (update abs i x)) :
    (s.go t id prog).Consistent n := by
  obtain ⟨hown, hb, tag, habs⟩ := h.mem.full hi hm
  obtain ⟨x, hx, hsees, hhist⟩ := hstep tag habs
  refine ⟨update own i (some (some t)), update abs i x, h.go_of he h.size rfl ?_ ?_ hok ?_ hhist⟩
  · refine h.mem.update (fun _ _ => rfl) (fun j hj => update_of_ne hj ..) ?_
    rw [update_self]
    exact ⟨hb, rfl, hx⟩
  · refine h.owners.change (.inl ⟨hown, (owned_of ht).trans howns⟩) (.inr ⟨rfl, howns'⟩) fun id' q hq _ => ?_
    cases hq
    exact hsees
  · exact h.scanned.mono (fun j hj => hj) fun p min k heq => absurd heq (hns p min k)

end

variable {op : MapOp V} {idx : Int} {p got : V} {min : BitVec 32} {pos : Nat}

private theorem Inv.stores (h : Inv n s own abs) (ht : s.threads t = some (id, prog)) (hi : i < n)
    (he : prog.exec s.bmap s.map = exchangeNull s.bmap s.map i v (.done op r)) (howns : prog.owns = some i)
    (howns' : (done op r).owns = none) (hstep : prog.Sees id (abs i) → ∃ tag,
      HistOk n (update s.threads t (some (id, .done op r))) s.next s.hist (logged s.log id prog.lin (.done op r))
        (update abs i (.full v tag))) :
    (s.go t id prog).Consistent n := by
  have hown : own i = some (some t) := (h.owners.owner t i).2 ⟨id, prog, ht, howns⟩
  obtain ⟨hb, hm, -⟩ := h.mem.owned hi hown
  obtain ⟨tag, hhist⟩ := hstep (h.owners.sees t id prog i ht howns)
  refine ⟨update own i none, update abs i (.full v tag), h.go_of he h.size ?_ ?_ ?_ trivial ?_ hhist⟩
  · rw [hm]
    rfl
  · refine h.mem.update (fun _ _ => rfl) (fun j hj => update_of_ne hj ..) ?_
    rw [update_self]
    exact .inr ⟨hb, v, tag, rfl, rfl⟩
  · refine h.owners.change (.inr ((owned_of ht).trans howns)) (.inl ⟨rfl, howns'⟩) fun id' q hq hi => ?_
    cases hq
    rw [howns'] at hi
    cases hi
  · exact h.scanned.mono (fun j hj => hj) nofun

private theorem reserve_used {bm : UkBmap} (hr : bm.InRange idx) (hb : bm.bitmap.bit idx.toNat = false) :
    (ukBmapReserve bm idx).1 ≠ 0 ∧ (ukBmapReserve bm idx).2.size = bm.size ∧
      ∀ j, (ukBmapReserve bm idx).2.bitmap.bit j = bm.bitmap.bit j := by
  obtain ⟨h1, h2, h3⟩ := reserve_spec hr
  refine ⟨fun h0 => ?_, h2, fun j => ?_⟩
  · rw [h1.1 h0] at hb
    cases hb
  · rw [h3]
    split
    next hj => rw [hj, hb]
    next => rfl

omit [DecidableEq T] in
private theorem Inv.inRange (h : Inv n s own abs) (hr : InRange n idx) : s.bmap.InRange idx :=
  ⟨hr.1, by rw [h.size]; exact hr.2⟩

omit [DecidableEq T] in
private theorem Inv.apply_full (h : Inv n s own abs) (hused : ∀ j < n, offset min ≤ j → s.bmap.bitmap.bit j = false) :
    abs.apply n ⟨id, .put p min, .full⟩ = some abs :=
  if_pos fun j hj ho => h.mem.used hj (hused j hj ho)

private theorem Inv.go_scan {k : Nat} (h : Inv n s own abs) (ht : s.threads t = some (id, .scan p min k)) :
    (s.go t id (.scan p min k)).Consistent n := by
  obtain ⟨hlo, hk⟩ := h.ok t id _ ht
  have hbefore := h.scanned t id p min k ht
  have hspec := scanWord_spec (b := s.bmap.bitmap) hlo (h.size.symm ▸ hk)
  rw [h.size] at hspec
  -- a bit of this word or before it
  have hword : ∀ m, (∀ j, j / 64 = k → offset min ≤ j → j < n → j < m → s.bmap.bitmap.bit j = false) →
      ∀ j < n, j < m → j < 64 * (k + 1) → offset min ≤ j → s.bmap.bitmap.bit j = false := by
    intro m hm j hj hjm hjk ho
    by_cases hjk' : j < 64 * k
    · exact hbefore j ho hjk'
    · exact hm j (by omega) ho hj hjm
  cases hscan : scanWord n (offset min) k (s.bmap.bitmap k) with
  | found pos =>
    rw [hscan] at hspec
    obtain ⟨hpos, ho, -, hmin⟩ := hspec
    by_cases hfull : n ≤ pos
    · refine h.reads (a := .put p min) ht ?_ rfl rfl rfl rfl (h.apply_full fun j hj ho => ?_)
      · simp only [exec, h.size, hscan, if_pos hfull]
      · exact hword pos hmin j hj (by omega) (by omega) ho
    · refine h.silent (c := .reserve p min pos) ht ?_ h.size (fun _ => rfl) rfl nofun rfl rfl
        ⟨ho, by omega⟩ nofun
      simp only [exec, h.size, hscan, if_neg hfull]
  | next =>
    rw [hscan] at hspec
    refine h.silent (c := .scan p min (k + 1)) ht ?_ h.size (fun _ => rfl) rfl nofun rfl rfl
      ⟨by omega, hspec.2⟩ ?_
    · simp only [exec, h.size, hscan]
    · intro p' min' k' heq j ho hj
      cases heq
      exact hword n (fun j hjk ho hjn _ => hspec.1 j hjk ho hjn) j (by omega) (by omega) hj ho
  | none =>
    rw [hscan] at hspec
    refine h.reads (a := .put p min) ht ?_ rfl rfl rfl rfl (h.apply_full fun j hj ho => ?_)
    · simp only [exec, h.size, hscan]
    · exact hword n (fun j hjk ho hjn _ => hspec.1 j hjk ho hjn) j hj hj (by omega) ho

private theorem Inv.go_reserve (h : Inv n s own abs)
    (ht : s.threads t = some (id, .reserve p min pos)) : (s.go t id (.reserve p min pos)).Consistent n := by
  obtain ⟨ho, hpos⟩ := h.ok t id _ ht
  have hr : s.bmap.InRange (pos : Int) := h.inRange ⟨Int.natCast_nonneg pos, hpos⟩
  cases hb : s.bmap.bitmap.bit pos with
  | true =>
    obtain ⟨h1, h2, h3⟩ := reserve_spec hr
    refine h.reserves (c := .putStore p min pos) ht ?_ (h2.trans h.size) hpos hb h3 rfl rfl rfl
      rfl rfl rfl ⟨ho, hpos⟩ (fun hfree => if_pos ⟨ho, hpos, hfree⟩)
    simp only [exec, if_pos (h1.2 hb)]
  | false =>
    obtain ⟨h1, h2, h3⟩ := reserve_used hr hb
    refine h.silent (c := .scan p min (offset min / 64)) ht ?_ (h2.trans h.size) h3 rfl nofun rfl rfl
      ⟨Nat.le_refl _, by omega⟩ ?_
    · simp only [exec, if_neg h1]
    · intro p' min' k' heq j ho' hj
      cases heq
      omega

private theorem Inv.tests (h : Inv n s own abs) (ht : s.threads t = some (id, prog)) (hr : InRange n idx)
    (he : prog.exec s.bmap s.map =
      ⟨s.bmap, s.map, if ukBmapIsfree s.bmap idx ≠ 0 then .done a (.ptr none) else c, false⟩)
    (hdone : (done a (.ptr none)).owns = none) (howns : prog.owns = none) (howns' : c.owns = none) (hop : a = prog.op)
    (hop' : c.op = prog.op) (hlin : prog.lin = none) (hlin' : c.lin = none) (hok : c.Ok n)
    (hns : ∀ p min k, c ≠ .scan p min k)
    (happly : abs.sel n idx = .free → abs.apply n ⟨id, a, .ptr none⟩ = some abs) : (s.go t id prog).Consistent n := by
  split at he
  next hfree =>
    refine h.reads ht he howns hdone hop hlin (happly ?_)
    unfold sel
    rw [if_pos hr]
    exact (h.mem.free hr.2 ((isfree_spec (h.inRange hr)).1 hfree)).2.2
  next =>
    refine h.silent ht he h.size (fun _ => rfl) (howns'.trans howns.symm) (fun i hi => ?_) hop'
      (hlin'.trans hlin.symm) hok
      fun p min k heq => absurd heq (hns p min k)
    rw [howns] at hi
    cases hi

section
variable (h : Inv n s own abs)
include h

private theorem Inv.go_xTest (ht : s.threads t = some (id, .xTest idx p)) :
    (s.go t id (.xTest idx p)).Consistent n := by
  have hr : InRange n idx := h.ok t id _ ht
  by_cases hfree : ukBmapIsfree s.bmap idx ≠ 0
  · refine h.silent (c := .xReserve idx p) ht ?_ h.size (fun _ => rfl) rfl nofun rfl rfl hr nofun
    simp only [exec, if_pos hfree]
  · refine h.silent (c := .xTake idx p) ht ?_ h.size (fun _ => rfl) rfl nofun rfl rfl hr nofun
    simp only [exec, if_neg hfree]

private theorem Inv.go_lookupRead (ht : s.threads t = some (id, .lookupRead idx)) :
    (s.go t id (.lookupRead idx)).Consistent n := by
  have hr : InRange n idx := h.ok t id _ ht
  cases hm : s.map idx.toNat with
  | some v =>
    obtain ⟨-, -, tag, habs⟩ := h.mem.full hr.2 hm
    refine h.reads (a := .lookup idx) (r := .ptr (some v)) ht ?_ rfl rfl rfl rfl ?_
    · simp only [exec, hm]
    · simp only [apply, sel, if_pos hr, habs, if_true]
  | none =>
    refine h.silent (c := .lookupTest idx) ht ?_ h.size (fun _ => rfl) rfl (by simp [owns]) rfl rfl hr (by simp)
    simp only [exec, hm]

private theorem Inv.go_takeXchg (ht : s.threads t = some (id, .takeXchg idx)) :
    (s.go t id (.takeXchg idx)).Consistent n := by
  have hr : InRange n idx := h.ok t id _ ht
  cases hm : s.map idx.toNat with
  | some v =>
    refine h.takes (c := .takeFree idx v) ht hr.2 hm ?_ rfl rfl hr nofun fun tag habs => ?_
    · simp only [exec, hm]
    · refine ⟨abs idx.toNat, by simp [habs], ⟨tag, habs⟩, ?_⟩
      rw [update_eq_self]
      exact h.hist.keep ht rfl rfl
  | none =>
    refine h.silent (c := .takeTest idx) ht ?_ h.size (fun _ => rfl) rfl nofun rfl rfl hr nofun
    simp only [exec, hm]

private theorem Inv.go_ctakeXchg (ht : s.threads t = some (id, .ctakeXchg idx)) :
    (s.go t id (.ctakeXchg idx)).Consistent n := by
  have hr : InRange n idx := h.ok t id _ ht
  cases hm : s.map idx.toNat with
  | some v =>
    refine h.takes (c := .done (.criticalTake idx) (.ptr (some v))) ht hr.2 hm ?_ rfl rfl trivial (by simp)
      fun tag habs => ?_
    · simp only [exec, hm]
    · refine ⟨.out tag, by simp, ⟨tag, rfl⟩, h.hist.effect ht rfl rfl rfl ?_⟩
      simp only [apply, op, sel, if_pos hr, habs, if_true]
  | none =>
    refine h.silent (c := .ctakeTest idx) ht ?_ h.size (fun _ => rfl) rfl (by simp [owns]) rfl rfl hr (by simp)
    simp only [exec, hm]

private theorem Inv.go_xTake (ht : s.threads t = some (id, .xTake idx p)) :
    (s.go t id (.xTake idx p)).Consistent n := by
  have hr : InRange n idx := h.ok t id _ ht
  cases hm : s.map idx.toNat with
  | some v =>
    refine h.takes (c := .xPutReserve idx p v) ht hr.2 hm ?_ rfl rfl hr nofun
      fun tag habs => ?_
    · simp only [exec, hm]
    · refine ⟨abs idx.toNat, by simp [habs], ⟨tag, habs⟩, ?_⟩
      rw [update_eq_self]
      exact h.hist.keep ht rfl rfl
  | none =>
    refine h.silent (c := .xTest idx p) ht ?_ h.size (fun _ => rfl) rfl nofun rfl rfl hr nofun
    simp only [exec, hm]

omit [DecidableEq T] in
private theorem Inv.bit_owned (ht : s.threads t = some (id, prog)) (howns : prog.owns = some i) (hi : i < n) :
    s.bmap.bitmap.bit i = false :=
  (h.mem.owned hi ((h.owners.owner t i).2 ⟨id, prog, ht, howns⟩)).1

private theorem Inv.go_xReserve (ht : s.threads t = some (id, .xReserve idx p)) :
    (s.go t id (.xReserve idx p)).Consistent n := by
  have hr : InRange n idx := h.ok t id _ ht
  cases hb : s.bmap.bitmap.bit idx.toNat with
  | true =>
    obtain ⟨h1, h2, h3⟩ := reserve_spec (h.inRange hr)
    refine h.reserves (c := .xStore idx p) ht ?_ (h2.trans h.size) hr.2 hb h3 rfl rfl rfl rfl rfl
      rfl hr fun hfree => ?_
    · simp only [exec, if_neg (not_not.2 (h1.2 hb))]
    · simp only [apply, op, if_pos hr, hfree]
  | false =>
    obtain ⟨h1, h2, h3⟩ := reserve_used (h.inRange hr) hb
    refine h.silent (c := .xTake idx p) ht ?_ (h2.trans h.size) h3 rfl (by simp [owns]) rfl rfl hr (by simp)
    simp only [exec, if_pos h1]

end

private theorem Inv.go_putStore (h : Inv n s own abs)
    (ht : s.threads t = some (id, .putStore p min pos)) : (s.go t id (.putStore p min pos)).Consistent n := by
  obtain ⟨-, hpos⟩ := h.ok t id _ ht
  refine h.stores ht hpos rfl rfl rfl fun hsees => ⟨id, ?_⟩
  have habs : abs pos = .full p id := hsees
  rw [← habs, update_eq_self]
  exact h.hist.keep ht rfl rfl

section
variable (h : Inv n s own abs)
include h

private theorem Inv.go_xStore (ht : s.threads t = some (id, .xStore idx p)) :
    (s.go t id (.xStore idx p)).Consistent n := by
  have hr : InRange n idx := h.ok t id _ ht
  refine h.stores ht hr.2 rfl rfl rfl fun hsees => ⟨id, ?_⟩
  have habs : abs idx.toNat = .full p id := hsees
  rw [← habs, update_eq_self]
  exact h.hist.keep ht rfl rfl

private theorem Inv.go_xPutStore (ht : s.threads t = some (id, .xPutStore idx p got)) :
    (s.go t id (.xPutStore idx p got)).Consistent n := by
  have hr : InRange n idx := h.ok t id _ ht
  refine h.stores ht hr.2 rfl rfl rfl fun hsees => ⟨id, h.hist.effect ht rfl rfl rfl ?_⟩
  obtain ⟨tag, habs⟩ : ∃ tag, abs idx.toNat = .full got tag := hsees
  simp only [apply, op, if_pos hr, habs, if_true]

private theorem Inv.go_cputStore (ht : s.threads t = some (id, .cputStore idx p)) :
    (s.go t id (.cputStore idx p)).Consistent n := by
  have hr : InRange n idx := h.ok t id _ ht
  refine h.stores ht hr.2 rfl rfl rfl fun hsees => ?_
  obtain ⟨tag, habs⟩ : ∃ tag, abs idx.toNat = .out tag := hsees
  refine ⟨tag, h.hist.effect ht rfl rfl rfl ?_⟩
  simp only [apply, op, if_pos hr, habs]

private theorem Inv.go_takeFree (ht : s.threads t = some (id, .takeFree idx got))
    (ha : s.Ahead (.step t)) : (s.go t id (.takeFree idx got)).Consistent n := by
  have hr : InRange n idx := h.ok t id _ ht
  have hown : own idx.toNat = some (some t) := (h.owners.owner t _).2 ⟨id, _, ht, rfl⟩
  obtain ⟨hb, hm, -⟩ := h.mem.owned hr.2 hown
  obtain ⟨tag, habs⟩ : ∃ tag, abs idx.toNat = .full got tag := h.owners.sees t id _ _ ht rfl
  obtain ⟨h1, h2, h3⟩ := ukBmapFree_spec (h.inRange hr)
  refine ⟨update own idx.toNat none, update abs idx.toNat .free,
    h.go_of rfl (h2.trans h.size) ?_ ?_ ?_ trivial ?_ ?_⟩
  · rw [h1.2 hb]
    rfl
  · refine h.mem.update (fun j hj => ?_) (fun _ _ => rfl) ?_
    · rw [h3, if_neg hj]
    · rw [h3, hm]
      exact .inl ⟨by simp, rfl, rfl⟩
  · exact h.owners.change (.inr (owned_of ht)) (.inl ⟨rfl, rfl⟩) fun id' q hq hi => by cases hq; cases hi
  · intro t' id' p min k hq j ho hj
    rcases threads_update hq with ⟨-, heq⟩ | ⟨-, hq⟩
    · cases heq
    · have hne : j ≠ idx.toNat := by
        rintro rfl
        exact ha id idx got ht t' id' p min k hq ⟨ho, hj⟩
      rw [h3, if_neg hne, h.scanned t' id' p min k hq j ho hj]
  · refine h.hist.effect ht rfl rfl rfl ?_
    simp only [apply, op, sel, if_pos hr, habs, if_true]

/-- Every step of an operation keeps the invariant. -/
theorem Inv.go (ht : s.threads t = some (id, prog)) (hlive : ∀ op r, prog ≠ .done op r)
    (ha : s.Ahead (.step t)) : (s.go t id prog).Consistent n := by
  cases prog with
  | scan p min k => exact h.go_scan ht
  | reserve p min pos => exact h.go_reserve ht
  | putStore p min pos => exact h.go_putStore ht
  | takeTest idx | lookupTest idx | ctakeTest idx =>
    exact h.tests ht (h.ok t id _ ht) rfl rfl rfl rfl rfl rfl rfl rfl (h.ok t id _ ht :) (by simp) fun hsel => by
      simp only [apply, hsel]
  | takeXchg idx => exact h.go_takeXchg ht
  | takeFree idx got => exact h.go_takeFree ht ha
  | lookupRead idx => exact h.go_lookupRead ht
  | ctakeXchg idx => exact h.go_ctakeXchg ht
  | cputReserve idx p | xPutReserve idx p got =>
    have hr : InRange n idx := h.ok t id _ ht
    obtain ⟨-, h2, h3⟩ := reserve_used (h.inRange hr) (h.bit_owned ht rfl hr.2)
    exact h.silent ht rfl (h2.trans h.size) h3 rfl (fun i _ hsees => hsees) rfl rfl hr (by simp)
  | cputStore idx p => exact h.go_cputStore ht
  | xReserve idx p => exact h.go_xReserve ht
  | xTake idx p => exact h.go_xTake ht
  | xTest idx p => exact h.go_xTest ht
  | xPutStore idx p got => exact h.go_xPutStore ht
  | xStore idx p => exact h.go_xStore ht
  | done op r => exact absurd rfl (hlive op r)

end

def Prog.Starts (n : Nat) (op : MapOp V) (prog : Prog V) : Prop :=
  (prog.op = op ∧ prog.lin = none ∧ prog.Ok n ∧ ∀ p min k, prog = .scan p min k → k = offset min / 64) ∨
    ∃ r, prog = .done op r ∧ ∀ (abs : Slots V) id, abs.apply n ⟨id, op, r⟩ = some abs

private theorem Prog.Starts.of_index (hop : c.op = op) (hlin : c.lin = none) (hok : InRange n idx → c.Ok n)
    (hns : ∀ p min k, c ≠ .scan p min k)
    (happly : ¬InRange n idx → ∀ (abs : Slots V) id, abs.apply n ⟨id, op, r⟩ = some abs) :
    Starts n op (if InRange n idx then c else .done op r) := by
  split
  next hr =>
    exact .inl ⟨hop, hlin, hok hr, fun p min k heq => absurd heq (hns p min k)⟩
  next hr =>
    exact .inr ⟨r, rfl, happly hr⟩

theorem Prog.start_cases (n : Nat) (op : MapOp V) : Starts n op (.start n op) := by
  cases op with
  | put p min =>
    by_cases hfull : n ≤ offset min
    · exact .inr ⟨.full, if_pos hfull, fun abs id => if_pos fun j hj ho => by omega⟩
    · have hstart : start n (.put p min) = .scan p min (offset min / 64) := if_neg hfull
      rw [hstart]
      refine .inl ⟨rfl, rfl, ⟨Nat.le_refl _, by omega⟩, fun _ _ _ heq => ?_⟩
      cases heq
      rfl
  | take idx | lookup idx | criticalTake idx =>
    exact .of_index rfl rfl id (by simp) fun hr abs id => by simp only [apply, sel, if_neg hr]
  | xchg idx p | criticalPut idx p =>
    exact .of_index rfl rfl id (by simp) fun hr abs id => by simp only [apply, if_neg hr, if_true]

section
variable (h : Inv n s own abs)
include h

private theorem Inv.hist_call (t : T) (op : MapOp V) :
    HistOk n (update s.threads t (some (s.next, .start n op))) (s.next + 1) (s.hist ++ [.inv s.next op])
      (logged s.log s.next none (.start n op)) abs := by
  rcases start_cases n op with ⟨hop, hlin, -⟩ | ⟨r, hstart, happly⟩
  · have hlog : logged s.log s.next none (start n op) = s.log := by
      unfold logged
      rw [hlin]
    rw [hlog]
    exact h.hist.call hop hlin
  · rw [hstart]
    exact h.hist.call_done (happly abs s.next)

private theorem Inv.call_of (hmem : MemOk n s.bmap.bitmap.bit s.map abs own')
    (hown : OwnOk (s.call n t op).threads (s.call n t op).held abs own') : Inv n (s.call n t op) own' abs := by
  refine ⟨h.size, hmem, hown, fun t' id' q hq => ?_, ?_, h.hist_call t op, h.failed⟩
  · rcases threads_update hq with ⟨-, heq⟩ | ⟨-, hq⟩
    · cases heq
      rcases start_cases n op with ⟨-, -, hok, -⟩ | ⟨r, hstart, -⟩
      · exact hok
      · rw [hstart]
        trivial
    · exact h.ok t' id' q hq
  · refine h.scanned.mono (fun j hj => hj) fun p min k heq j ho hj => ?_
    -- a search begins with the word of its first bit
    rcases start_cases n op with ⟨-, -, -, hfirst⟩ | ⟨r, hstart, -⟩
    · have := hfirst p min k heq
      omega
    · rw [hstart] at heq
      cases heq

private theorem Inv.call (hl : s.Legal n (.call t op)) : (s.call n t op).Consistent n := by
  have hidle : s.threads t = none := by
    cases op with
    | criticalPut idx p => exact hl.1
    | _ => exact hl
  have hold : owned (s.threads t) = none := by
    rw [hidle]
    rfl
  cases op with
  | criticalPut idx p =>
    obtain ⟨-, hr, hheld⟩ := hl
    have hown : OwnOk (update s.threads t (some (s.next, .cputReserve idx p))) _ _ _ :=
      (h.owners.leave hheld).change (x := abs idx.toNat) (.inl ⟨update_self .., hold⟩) (.inr ⟨rfl, rfl⟩)
        fun id' q hq _ => by
        cases hq
        exact h.owners.out _ hheld
    rw [update_eq_self, update_idem] at hown
    have hstart : start n (.criticalPut idx p) = .cputReserve idx p := if_pos hr
    refine ⟨update own idx.toNat (some (some t)), abs, h.call_of ?_ ?_⟩
    · rw [← update_eq_self idx.toNat abs]
      exact h.mem.update (fun _ _ => rfl) (fun _ _ => rfl) (h.mem.owned hr.2 ((h.owners.inSection _).2 hheld))
    · unfold call
      rw [hstart]
      exact hown
  | _ =>
    refine ⟨own, abs, h.call_of h.mem (h.owners.keep (.trans ?_ hold.symm) fun id' q i hq hi => ?_)⟩
    · simp only [owned, Option.bind_some, start]
      split <;> rfl
    · cases hq
      simp only [start] at hi
      split at hi <;> cases hi

private theorem Inv.ret_of (ht : s.threads t = some (id, .done op r))
    (hmem : MemOk n s.bmap.bitmap.bit s.map abs own')
    (hown : OwnOk (s.ret t id op r).threads (s.ret t id op r).held abs own') : Inv n (s.ret t id op r) own' abs := by
  refine ⟨h.size, hmem, hown, fun t' id' q hq => ?_, fun t' id' p min k hq => ?_, h.hist.ret ht, h.failed⟩
  · rcases threads_update hq with ⟨-, heq⟩ | ⟨-, hq⟩
    · cases heq
    · exact h.ok t' id' q hq
  · rcases threads_update hq with ⟨-, heq⟩ | ⟨-, hq⟩
    · cases heq
    · exact h.scanned t' id' p min k hq

private theorem Inv.ret (ht : s.threads t = some (id, .done op r)) : (s.ret t id op r).Consistent n := by
  have hplain : (done op r).owns = none → (s.ret t id op r).held = s.held → (s.ret t id op r).Consistent n := by
    intro howns hheld
    refine ⟨own, abs, h.ret_of ht h.mem ?_⟩
    rw [hheld]
    exact h.owners.keep ((owned_of ht).trans howns).symm nofun
  cases op with
  | criticalTake idx =>
    rcases r with _ | _ | ⟨_ | v⟩ | _ | _
    case ptr.some =>
      obtain ⟨tag, habs⟩ : ∃ tag, abs idx.toNat = .out tag := h.owners.sees t id _ _ ht rfl
      have hown := h.owners.change (x := abs idx.toNat) (y := none) (.inr (owned_of ht)) (.inl ⟨rfl, rfl⟩) nofun
      rw [update_eq_self] at hown
      have hown' := hown.enter (update_self ..) ⟨tag, habs⟩
      rw [update_idem] at hown'
      refine ⟨update own idx.toNat (some none), abs, h.ret_of ht ?_ hown'⟩
      intro j hj
      by_cases hji : j = idx.toNat
      · subst hji
        rw [update_self]
        exact h.mem.owned hj ((h.owners.owner t _).2 ⟨id, _, ht, rfl⟩)
      · rw [update_of_ne hji]
        exact h.mem j hj
    all_goals exact hplain rfl rfl
  | _ => exact hplain rfl rfl

end

/-- Every step of the system keeps the invariant, if no index becomes free behind a search. -/
theorem Inv.step {l : Label T V} (h : Inv n s own abs) (hl : s.Legal n l) (ha : s.Ahead l) :
    (s.step n l).Consistent n := by
  cases l with
  | call t op => exact h.call hl
  | step t =>
    cases ht : s.threads t with
    | none =>
      refine ⟨own, abs, ?_⟩
      simp only [State.step, ht]
      exact h
    | some th =>
      obtain ⟨id, prog⟩ := th
      by_cases hdone : ∃ op r, prog = .done op r
      · obtain ⟨op, r, rfl⟩ := hdone
        simp only [State.step, ht]
        exact h.ret ht
      · have hgo : s.step n (.step t) = s.go t id prog := by
          simp only [State.step, ht]
          cases prog with
          | done op r => exact absurd ⟨op, r, rfl⟩ hdone
          | _ => rfl
        rw [hgo]
        exact h.go ht (fun op r heq => hdone ⟨op, r, heq⟩) ha

omit [DecidableEq T] in
/-- The empty map without operations satisfies the invariant. -/
theorem inv_init : Inv n (State.init n : State T V) (fun _ => none) (fun _ => .free) where
  size := rfl
  mem i hi := by
    have hbit := (ukFmapInit_is (m := ⟨⟨fun _ => 0, n⟩, fun _ => 0⟩)).bit i hi
    exact .inl ⟨hbit, rfl, rfl⟩
  owners := {
    owner t i := by simp [State.init]
    sees t id prog i h := by cases h
    inSection i := by simp [State.init]
    out i hi := by cases hi
    nodup := nodup_nil }
  ok t id prog h := by cases h
  scanned t id p min i h := by cases h
  hist := {
    lin := linearization_nil
    calls := {
      invoked t id prog h := by cases h
      running t id prog r h := by cases h
      fresh t id prog h := by cases h
      distinct t t' id prog c h := by cases h }
    entered t id prog r h := by cases h
    pending t id prog h := by cases h
    freshLog id h := by cases h }
  failed := rfl

/-- No assertion failed, the operations behave like those of the sequential map, and a slot that no operation is
working on is null exactly if it is marked as free. -/
structure MapOk (n : Nat) (s : State T V) : Prop where
  asserts : s.failed = false
  linearizable : ∃ l abs, Linearization (apply n) (fun _ => .free) s.hist l abs ∧ TakenBetween l ∧
    (handedAll n (fun _ => .free) l).Nodup
  quiescent : (∀ t, s.threads t = none) → s.held = [] → ∀ i < n, s.bmap.bitmap.bit i = true ↔ s.map i = none

omit [DecidableEq T] in
private theorem Inv.mapOk (h : Inv n s own abs) : MapOk n s where
  asserts := h.failed
  linearizable :=
    ⟨s.log, abs, h.hist.lin, takenBetween_of_foldlM h.hist.lin.legal, handedAll_nodup h.hist.lin.nodup⟩
  quiescent hidle hheld i hi := by
    have hown : own i = none := by
      cases ho : own i with
      | none => rfl
      | some o =>
        cases o with
        | none =>
          have := (h.owners.inSection i).1 ho
          rw [hheld] at this
          cases this
        | some t =>
          obtain ⟨id, prog, ht, -⟩ := (h.owners.owner t i).1 ho
          rw [hidle t] at ht
          cases ht
    have hslot := h.mem i hi
    rw [hown] at hslot
    rcases hslot with ⟨hb, hm, -⟩ | ⟨hb, v, tag, hm, -⟩ <;> simp [hb, hm]

end

/-! ### A put that finds the map full although it never was -/

end Unikraft.Fdtab
