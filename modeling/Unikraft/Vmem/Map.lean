import Unikraft.Vmem.Split

/-!
# Mapping, unmapping and changing attributes

`uk_vma_unmap` and `uk_vma_set_attr` split the first and the last area of a range, act on each mapped page of it and
on no other (`Pagewise`); if the second split is refused, the first is undone by a merge. `uk_vma_map` inserts an area
at the address that was asked for, or the lowest one where the range is free. If areas in the way are to be replaced,
the new area has the length from the first to the last of them, which is the one that was asked for if and only if
both ends of the range were mapped. In the other runs the ends of all areas stay aligned to their levels.
-/

namespace Unikraft.Vmem

open Areas Found List

variable {O N P : Type} {E : Ends} {l : List (Vma O N)} {f : Found O N} {vaddr vend len : Nat} {attr : Option Nat}

/-- The areas of the range are cut at its ends, or need not be. -/
structure Found.Cut (f : Found O N) (attr : Option Nat) (vaddr vend : Nat) : Prop where
  before : ∀ v ∈ f.before, v.stop ≤ vaddr
  after : ∀ v ∈ f.after, vend ≤ v.start
  start : vaddr ≤ f.vmaStart.start ∨ attr = some f.vmaStart.attr
  stop : f.vmaEnd.stop ≤ vend ∨ attr = some f.vmaEnd.attr
  startLt : vaddr < f.vmaStart.stop
  stopLt : f.vmaEnd.start < vend

section
variable {env : Env O N P} {r : Except Errno (Found O N)}

/-- An area is split, or need not be, or the split is refused. -/
theorem Found.splitAt_cases {cut : Found O N} {v : Vma O N} {x : Nat} (h : f.splitAt env attr cut v len x = some r) :
    (∃ e, r = .error e ∧ e ≠ .ENOENT) ∨ (r = .ok cut ∧ 0 < len) ∨ (r = .ok f ∧ (len = 0 ∨ attr = some v.attr)) := by
  unfold splitAt at h
  split at h
  next hneed =>
    obtain ⟨r', hsplit, rfl⟩ := Option.map_eq_some_iff.1 h
    unfold vmemVmaSplit at hsplit
    split_ifs at hsplit
    cases he : env.split v x with
    | some err =>
      rw [he] at hsplit
      cases hsplit
      exact .inl ⟨err.errno, rfl, by cases err <;> exact nofun⟩
    | none =>
      rw [he] at hsplit
      cases hsplit
      simp only [vmemVmaNeedSplit, Bool.and_eq_true, decide_eq_true_eq] at hneed
      exact .inr (.inl ⟨rfl, hneed.1⟩)
  next hneed =>
    cases h
    simp only [vmemVmaNeedSplit, Bool.and_eq_true, decide_eq_true_eq, not_and, not_not] at hneed
    exact .inr (.inr ⟨rfl, (Nat.eq_zero_or_pos len).imp_right hneed⟩)

private theorem Found.Spans.cutStart (h : f.Spans l vaddr vend) (hs : Sound E l) (hlt : f.vmaStart.start < f.vaddr) :
    Reshaped E l f.cutStart.list ∧ f.cutStart.Spans f.cutStart.list vaddr vend ∧
      f.cutStart.vmaStart.start = f.cutStart.vaddr := by
  have hva : f.vaddr = max vaddr f.vaddr := by
    have := h.clipStart
    omega
  have hbefore {v : Vma O N} (hv : v ∈ f.before ++ [{ f.vmaStart with stop := f.vaddr }]) : v.stop ≤ vaddr := by
    rcases mem_append.1 hv with hv | hv
    · exact h.before v hv
    · rw [mem_singleton.1 hv]
      have := h.clipStart
      show f.vaddr ≤ vaddr
      omega
  have hsplit (B : List (Vma O N)) (hB : f.list = f.before ++ f.vmaStart :: B) :
      Reshaped E l (f.before ++ { f.vmaStart with stop := f.vaddr } :: { f.vmaStart with start := f.vaddr } ::
          B) := by
    rw [← h.list, hB] at hs ⊢
    exact reshaped_split hs hlt h.start h.alignedStart
  obtain ⟨x, y, before, init, vmaEnd, after⟩ := f
  cases init with
  | nil =>
    refine ⟨?_, ⟨rfl, h.lt, hva, h.clipEnd, h.start, h.lt, h.alignedStart, h.alignedEnd, fun v hv => hbefore hv,
        h.after⟩, rfl⟩
    simpa [Found.list, Found.mid, Found.cutStart, Found.vmaStart] using
      hsplit after (by simp [Found.list, Found.mid, Found.vmaStart])
  | cons s init =>
    refine ⟨?_, ⟨rfl, h.lt, hva, h.clipEnd, h.start, h.stop, h.alignedStart, h.alignedEnd, fun v hv => hbefore hv,
        h.after⟩, rfl⟩
    simpa [Found.list, Found.mid, Found.cutStart, Found.vmaStart] using
      hsplit (init ++ vmaEnd :: after) (by simp [Found.list, Found.mid, Found.vmaStart])

private theorem Found.Spans.splitStart (h : f.Spans l vaddr vend) (hs : Sound E l)
    (hr : f.splitStart env attr = some r) :
    (∃ e, r = .error e ∧ e ≠ .ENOENT) ∨ ∃ f1, r = .ok f1 ∧ Reshaped E l f1.list ∧ f1.Spans f1.list vaddr vend ∧
      (f1.vmaStart.start = f1.vaddr ∨ attr = some f1.vmaStart.attr) := by
  rcases splitAt_cases hr with herr | ⟨rfl, hlt⟩ | ⟨rfl, hno⟩
  · exact .inl herr
  · obtain ⟨h1, h2, h3⟩ := h.cutStart hs (by omega)
    exact .inr ⟨f.cutStart, rfl, h1, h2, .inl h3⟩
  · obtain rfl := h.list
    have hclip := h.clipStart
    exact .inr ⟨f, rfl, Reshaped.refl hs, h, hno.imp_left fun hz => by omega⟩

private theorem Found.vmaStart_cutEnd (f : Found O N) : f.cutEnd.vmaStart.start = f.vmaStart.start ∧
    f.cutEnd.vmaStart.attr = f.vmaStart.attr ∧
    (f.cutEnd.vmaStart.stop = f.vend ∨ f.cutEnd.vmaStart.stop = f.vmaStart.stop) := by
  unfold vmaStart cutEnd
  cases f.init <;> simp

private theorem Found.Spans.cutEnd (h : f.Spans l vaddr vend) (hs : Sound E l) (hlt : f.vend < f.vmaEnd.stop)
    (hstart : f.vmaStart.start = f.vaddr ∨ attr = some f.vmaStart.attr) :
    Reshaped E l f.cutEnd.list ∧ f.cutEnd.Cut attr vaddr vend := by
  obtain ⟨h1, h2, h3⟩ := f.vmaStart_cutEnd
  have hclip := h.clipStart
  have hclip' := h.clipEnd
  have hlt' := h.lt
  have hst := h.start
  have hsp := h.stop
  constructor
  · have hlist : f.list = (f.before ++ f.init) ++ f.vmaEnd :: f.after := by simp [Found.list, Found.mid]
    rw [← h.list, hlist] at hs ⊢
    simpa [Found.cutEnd, Found.list, Found.mid] using reshaped_split hs h.stop hlt h.alignedEnd
  · refine ⟨h.before, fun v hv => ?_, ?_, .inl (by show f.vend ≤ vend; omega), by omega,
        by show f.vmaEnd.start < vend; omega⟩
    · rcases mem_cons.1 hv with rfl | hv
      · show vend ≤ f.vend
        omega
      · exact h.after v hv
    · rw [h1, h2]
      exact hstart.imp_left fun heq => by omega

private theorem Found.Spans.splitEnd (h : f.Spans l vaddr vend) (hs : Sound E l)
    (hstart : f.vmaStart.start = f.vaddr ∨ attr = some f.vmaStart.attr) (hr : f.splitEnd env attr = some r) :
    (∃ e, r = .error e ∧ e ≠ .ENOENT) ∨ ∃ f1, r = .ok f1 ∧ Reshaped E l f1.list ∧ f1.Cut attr vaddr vend := by
  rcases splitAt_cases hr with herr | ⟨rfl, hlt⟩ | ⟨rfl, hno⟩
  · exact .inl herr
  · exact .inr ⟨f.cutEnd, rfl, h.cutEnd hs (by omega) hstart⟩
  · obtain rfl := h.list
    have hclip := h.clipStart
    have hclip' := h.clipEnd
    have hst := h.start
    have hsp := h.stop
    exact .inr ⟨f, rfl, Reshaped.refl hs, h.before, h.after, hstart.imp_left fun heq => by omega,
      hno.imp_left fun hz => by omega, by omega, by omega⟩

end

private theorem Found.vmaStart_mem : f.vmaStart ∈ f.mid := by
  unfold vmaStart mid
  cases f.init <;> simp

private theorem Found.vmaEnd_mem : f.vmaEnd ∈ f.mid := by
  simp [mid]

private theorem Found.ordered (h : Sound E f.list) {v : Vma O N} (hv : v ∈ f.mid) :
    (v = f.vmaStart ∨ f.vmaStart.stop ≤ v.start) ∧ (v = f.vmaEnd ∨ v.stop ≤ f.vmaEnd.start) := by
  have hmid : Sound E f.mid := (apart_append.1 (apart_append.1 h).1).2.1
  unfold vmaStart
  unfold mid at hmid hv
  constructor
  · cases hi : f.init with
    | nil =>
      rw [hi] at hv
      exact .inl (mem_singleton.1 hv)
    | cons s init =>
      rw [hi, cons_append] at hmid hv
      exact (mem_cons.1 hv).imp id ((apart_cons.1 hmid).2.2 v)
  · rcases mem_append.1 hv with hv | hv
    · exact .inr ((apart_append.1 hmid).2.2 v hv f.vmaEnd (by simp))
    · exact .inl (mem_singleton.1 hv)

private theorem Found.Cut.mid (hc : f.Cut attr vaddr vend) (h : Sound E f.list) {v : Vma O N} (hv : v ∈ f.mid) :
    (vaddr ≤ v.start ∨ attr = some v.attr) ∧ (v.stop ≤ vend ∨ attr = some v.attr) := by
  have h1 := hc.startLt
  have h2 := hc.stopLt
  obtain ⟨hfirst, hlast⟩ := ordered h hv
  constructor
  · rcases hfirst with rfl | hle
    · exact hc.start
    · exact .inl (by omega)
  · rcases hlast with rfl | hle
    · exact hc.stop
    · exact .inl (by omega)

variable [DecidableEq O] [DecidableEq N]

private theorem reshaped_tryMergeStart (env : Env O N P) (h : Sound E f.list) :
    Reshaped E f.list (f.tryMergeStart env) := by
  obtain ⟨x, y, before, init, vmaEnd, after⟩ := f
  cases init with
  | nil =>
    simp only [list, mid, nil_append, append_assoc, singleton_append] at h ⊢
    exact reshaped_tryMerge env h
  | cons s init =>
    simp only [list, mid, cons_append, append_assoc, nil_append] at h ⊢
    exact reshaped_tryMerge env h

/-- The list shows the same, and the areas of the range are cut at its ends. -/
theorem splitVmas_spec (cfg : Config O) (env : Env O N P) (vaddr : Nat) (attr : Option Nat) (strict : Bool)
    (hs : Sound E l) (hlen : 0 < len) :
    match vmemVmaSplitVmas cfg env l vaddr len attr strict with
    | none => Stopped l vaddr len strict
    | some (.error (e, l')) => Reshaped E l l' ∧ Missed l vaddr len strict e
    | some (.ok f) =>
      Reshaped E l f.list ∧ f.Cut attr vaddr (vaddr + len) ∧ (strict = true → ¬ Hole l vaddr len) := by
  have hfind := findRange_spec cfg vaddr strict hs hlen
  unfold vmemVmaSplitVmas
  cases hf : vmemVmaFindRange cfg l vaddr len strict with
  | none =>
    rw [hf] at hfind
    exact hfind
  | some r =>
    rw [hf] at hfind
    cases r with
    | error e => exact ⟨Reshaped.refl hs, hfind⟩
    | ok f =>
      obtain ⟨hspans, hhole⟩ := hfind
      have hmissed {e : Errno} (he : e ≠ .ENOENT) : Missed l vaddr len strict e := .inr ⟨he, fun hst _ => hhole hst⟩
      dsimp only
      cases hstart : f.splitStart env attr with
      | none => exact .inr (.inr hhole)
      | some r =>
        rcases hspans.splitStart hs hstart with ⟨e, rfl, he⟩ | ⟨f1, rfl, hr1, hspans1, hcut⟩
        · exact ⟨Reshaped.refl hs, hmissed he⟩
        dsimp only
        cases hend : f1.splitEnd env attr with
        | none => exact .inr (.inr hhole)
        | some r =>
          rcases hspans1.splitEnd hr1.sound hcut hend with ⟨e, rfl, he⟩ | ⟨f2, rfl, hr2, hcut2⟩
          · exact ⟨hr1.trans (reshaped_tryMergeStart env hr1.sound), hmissed he⟩
          · exact ⟨hr1.trans hr2, hcut2, hhole⟩

open Vma

variable {O N P : Type} {E : Ends} {l l' : List (Vma O N)} {f : Found O N} {vaddr vend len attr a : Nat}
    {cfg : Config O}
  {env : Env O N P} {vas : Vas O N P} {g : Props O N → Option (Props O N)}

/-- The call has done `g` to the pages of the range, or has failed. No assertion hides a hole from a strict call, as
long as the areas are aligned. -/
def Pagewise (E : Ends) (l : List (Vma O N)) (vaddr len : Nat) (strict : Bool) (g : Props O N → Option (Props O N)) :
    Option (Vas O N P × Except Errno Unit) → Prop
  | none =>
    strict = true → vaddr + len ≤ vaddrMax → (∀ v ∈ l, pageLxAligned v.start v.algnLvl = true) → ¬ Hole l vaddr len
  | some (vas', .ok _) => Sound E vas'.vmaList ∧ (strict = true → ¬ Hole l vaddr len) ∧
      ∀ a, view vas'.vmaList a = if vaddr ≤ a ∧ a < vaddr + len then (view l a).bind g else view l a
  | some (vas', .error e) => Sound E vas'.vmaList ∧ (∀ a, view vas'.vmaList a = view l a) ∧
      (strict = true → StartAligned l vaddr → (e = .ENOENT ↔ Hole l vaddr len))

private theorem Pagewise.sound {strict : Bool}
    {r : Option (Vas O N P × Except Errno Unit)} (h : Pagewise E l vaddr len strict g r) {vas' : Vas O N P}
    (hr : r.map Prod.fst = some vas') :
    Sound E vas'.vmaList := by
  obtain ⟨⟨vas1, x⟩, rfl, rfl⟩ := Option.map_eq_some_iff.1 hr
  cases x with
  | error e | ok e => exact h.1

private theorem view_append (l1 l2 : List (Vma O N)) (a : Nat) : view (l1 ++ l2) a = (view l1 a).or (view l2 a) :=
  look_append

private theorem view_parts {A M B : List (Vma O N)} (hA : ∀ v ∈ A, v.stop ≤ vaddr) (hB : ∀ v ∈ B, vend ≤ v.start)
    (h1 : vaddr ≤ a) (h2 : a < vend) : view (A ++ M ++ B) a = view M a := by
  have hBa : view B a = none := look_of_lt fun v hv => Nat.lt_of_lt_of_le h2 (hB v hv)
  have hAa : view A a = none := look_of_le fun v hv => Nat.le_trans (hA v hv) h1
  rw [view_append, view_append, hAa, hBa, Option.none_or, Option.or_none]

private theorem onRange_pagewise [DecidableEq O] [DecidableEq N] {flags : Nat} {attr : Option Nat}
    {act : Found O N → P → Option (List (Vma O N) × P)} (hs : Sound E vas.vmaList)
    (hact : ∀ f l' pt', Sound E f.list → f.Cut attr vaddr (vaddr + len) → act f vas.pt = some (l', pt') → Sound E l' ∧
      ∀ a, view l' a = if vaddr ≤ a ∧ a < vaddr + len then (view f.list a).bind g else view f.list a) :
    Pagewise E vas.vmaList vaddr len (strictFlag flags) g (onRange cfg env vas vaddr len flags attr act) := by
  unfold onRange
  by_cases hzero : len = 0
  · rw [if_pos hzero]
    refine ⟨hs, ?_, fun a => by rw [if_neg (by omega)]⟩
    rintro - ⟨a, h1, h2, -⟩
    omega
  rw [if_neg hzero]
  have hsplit := splitVmas_spec cfg env vaddr attr (strictFlag flags) hs (Nat.pos_of_ne_zero hzero)
  cases hr : vmemVmaSplitVmas cfg env vas.vmaList vaddr len attr (strictFlag flags) with
  | none =>
    rw [hr] at hsplit
    intro hst hmax hal
    rcases hsplit with hlt | ⟨v, hv, hbad⟩ | hhole
    · omega
    · rw [hal v hv] at hbad
      cases hbad
    · exact hhole hst
  | some r =>
    rw [hr] at hsplit
    cases r with
    | error r =>
      obtain ⟨e, l'⟩ := r
      obtain ⟨hl', hmissed⟩ := hsplit
      dsimp only
      split_ifs with he
      · refine ⟨hl'.sound, fun hst => absurd hst (by simp [he.2]), fun a => ?_⟩
        rcases hmissed with ⟨-, -, hnone⟩ | ⟨hne, -⟩
        · rw [hl'.view a]
          split
          next hin => rw [hnone he.2 a hin.1 hin.2, Option.bind_none]
          next => rfl
        · exact absurd he.1 hne
      · refine ⟨hl'.sound, hl'.view, fun hst hal => ?_⟩
        rcases hmissed with ⟨rfl, hhole, -⟩ | ⟨hne, hhole⟩
        · exact ⟨fun _ => hhole, fun _ => rfl⟩
        · exact ⟨fun he => absurd he hne, fun hh => absurd hh (hhole hst hal)⟩
    | ok f =>
      obtain ⟨hf, hcut, hhole⟩ := hsplit
      dsimp only
      cases hres : act f vas.pt with
      | none => exact fun hst _ _ => hhole hst
      | some r =>
        obtain ⟨hsound, hview⟩ := hact f r.1 r.2 hf.sound hcut hres
        refine ⟨hsound, hhole, fun a => ?_⟩
        rw [← hf.view a]
        exact hview a

private theorem Found.Cut.view_without (hc : f.Cut none vaddr vend) (h : Sound E f.list) (a : Nat) :
    view (f.before ++ f.after) a = if vaddr ≤ a ∧ a < vend then none else view f.list a := by
  split
  next hin =>
    rw [← append_nil f.before]
    exact view_parts hc.before hc.after hin.1 hin.2
  next hout =>
    have hmid : view f.mid a = none := by
      refine look_eq_none_iff.2 fun v hv hhas => hout ?_
      obtain ⟨h1, h2⟩ := hc.mid h hv
      obtain ⟨h3, h4⟩ := hhas
      simp only [reduceCtorEq, or_false] at h1 h2
      omega
    rw [list, view_append, view_append, view_append, hmid, Option.or_none]

private theorem Found.sound_without (h : Sound E f.list) : Sound E (f.before ++ f.after) := by
  obtain ⟨h1, hafter, h2⟩ := apart_append.1 h
  exact apart_append.2 ⟨(apart_append.1 h1).1, hafter, fun v hv w hw => h2 v (mem_append_left _ hv) w hw⟩

private theorem unmap_pagewise [DecidableEq O] [DecidableEq N] (flags : Nat) (hs : Sound E vas.vmaList) :
    Pagewise E vas.vmaList vaddr len (strictFlag flags) (fun _ => none) (ukVmaUnmap cfg env vas vaddr len flags) := by
  refine onRange_pagewise hs fun f l' pt' hf hcut hres => ?_
  obtain ⟨pt, -, heq⟩ := Option.map_eq_some_iff.1 hres
  cases heq
  refine ⟨sound_without hf, fun a => ?_⟩
  rw [hcut.view_without hf a, Option.bind_fun_none]

def Props.setAttr (cfg : Config O) (attr : Nat) (p : Props O N) : Props O N :=
  if cfg.hasSetAttr p.ops then { p with attr := attr } else p

def Vma.setAttr (cfg : Config O) (attr : Nat) (v : Vma O N) : Vma O N :=
  if cfg.hasSetAttr v.ops then { v with attr := attr } else v

private theorem Vma.setAttr_eq (cfg : Config O) (attr : Nat) (v : Vma O N) :
    (v.setAttr cfg attr).start = v.start ∧ (v.setAttr cfg attr).stop = v.stop ∧
      (v.setAttr cfg attr).pageLvl = v.pageLvl ∧ (v.setAttr cfg attr).props = v.props.setAttr cfg attr := by
  unfold setAttr Props.setAttr props
  cases hc : cfg.hasSetAttr v.ops <;> simp

private theorem view_map_setAttr (l : List (Vma O N)) (a : Nat) :
    view (l.map (setAttr cfg attr)) a = (view l a).map (Props.setAttr cfg attr) := by
  induction l with
  | nil => rfl
  | cons v l ih =>
    obtain ⟨h1, h2, -, h3⟩ := v.setAttr_eq cfg attr
    have hhas : Has start stop (v.setAttr cfg attr) a ↔ Has start stop v a := by
      unfold Has
      rw [h1, h2]
    unfold view at ih ⊢
    rw [map_cons, look_cons, look_cons, h3, ih]
    simp only [hhas]
    split <;> rfl

private theorem vmaSetAttr_eq {v v' : Vma O N} {pt pt' : P} (h : vmemVmaSetAttr cfg env attr v pt = some (v', pt')) :
    v' = v.setAttr cfg attr := by
  unfold vmemVmaSetAttr at h
  unfold setAttr
  split_ifs at h with h1 h2
  · cases h
    subst h1
    split <;> rfl
  · cases h
    rw [h2]
    rfl
  · obtain ⟨pt1, -, heq⟩ := Option.map_eq_some_iff.1 h
    cases heq
    rw [if_pos (Bool.not_eq_false _ ▸ h2)]

private theorem setAttrVmas_eq {m m' : List (Vma O N)} {pt pt' : P}
    (h : setAttrVmas cfg env attr m pt = some (m', pt')) :
    m' = m.map (setAttr cfg attr) := by
  induction m generalizing m' pt with
  | nil =>
    cases h
    rfl
  | cons v m ih =>
    unfold setAttrVmas at h
    split at h
    next => cases h
    next v' pt1 hv =>
      obtain ⟨⟨m1, pt2⟩, hm, heq⟩ := Option.map_eq_some_iff.1 h
      cases heq
      rw [vmaSetAttr_eq hv, ih hm, map_cons]

private theorem Found.sound_setAttr (cfg : Config O) (attr : Nat) (h : Sound E f.list) :
    Sound E (f.before ++ f.mid.map (setAttr cfg attr) ++ f.after) := by
  have h1 (v : Vma O N) := (v.setAttr_eq cfg attr).1
  have h2 (v : Vma O N) := (v.setAttr_eq cfg attr).2.1
  have h3 (v : Vma O N) := (v.setAttr_eq cfg attr).2.2.1
  simp only [list, Sound, apart_iff, forall_mem_append, pairwise_append, forall_mem_map, pairwise_map,
    h1, h2, h3] at h ⊢
  exact h

private theorem Found.Cut.view_setAttr (cfg : Config O) (hc : f.Cut (some attr) vaddr vend) (h : Sound E f.list)
    (a : Nat) :
    view (f.before ++ f.mid.map (setAttr cfg attr) ++ f.after) a =
      if vaddr ≤ a ∧ a < vend then (view f.list a).map (Props.setAttr cfg attr) else view f.list a := by
  split
  next hin =>
    rw [view_parts hc.before hc.after hin.1 hin.2, view_map_setAttr, list, view_parts hc.before hc.after hin.1 hin.2]
  next hout =>
    have hmid : (view f.mid a).map (Props.setAttr cfg attr) = view f.mid a := by
      cases hm : view f.mid a with
      | none => rfl
      | some p =>
        obtain ⟨v, hv, hhas, rfl⟩ := look_eq_some hm
        have hattr : v.attr = attr := by
          obtain ⟨h1, h2⟩ := hc.mid h hv
          obtain ⟨h3, h4⟩ := hhas
          simp only [Option.some.injEq] at h1 h2
          omega
        subst hattr
        simp [Props.setAttr, props]
    rw [list, view_append, view_append, view_append, view_append, view_map_setAttr, hmid]

private theorem setAttr_pagewise [DecidableEq O] [DecidableEq N] (flags : Nat) (hs : Sound E vas.vmaList) :
    Pagewise E vas.vmaList vaddr len (strictFlag flags) (fun p => some (p.setAttr cfg attr))
      (ukVmaSetAttr cfg env vas vaddr len attr flags) := by
  refine onRange_pagewise hs fun f l' pt' hf hcut hres => ?_
  unfold vmemVmaSetAttrVmas at hres
  split at hres
  next => cases hres
  next init pt hinit =>
    obtain ⟨⟨vmaEnd, pt1⟩, hend, heq⟩ := Option.map_eq_some_iff.1 hres
    cases heq
    have hmid : f.mid.map (setAttr cfg attr) = init ++ [vmaEnd] := by
      rw [mid, map_append, setAttrVmas_eq hinit, vmaSetAttr_eq hend]
      rfl
    have hsound := sound_setAttr cfg attr hf
    have hview := hcut.view_setAttr cfg hf
    rw [hmid] at hsound hview
    -- the two passes that merge
    have hnext := reshaped_tryMergeWithNext env (A := f.before ++ init) (by simpa using hsound)
    have hfold := reshaped_foldl env (m := init ++ [(tryMergeWithNext env vmaEnd f.after).1])
      (by simpa using hnext.sound)
    refine ⟨hfold.sound, fun a => (hfold.view a).trans ?_⟩
    have hsame := hnext.view a
    simp only [append_assoc, cons_append, nil_append] at hsame hview ⊢
    rw [hsame, hview a, Option.map_eq_bind]
    rfl

variable {O N P : Type} {E : Ends} {l l' : List (Vma O N)} {v : Vma O N} {a vaddr va len : Nat} {f : Found O N}
    {align : Nat}

theorem alignUp_spec (x : Nat) (h : 0 < align) :
    x ≤ alignUp x align ∧ align ∣ alignUp x align ∧ ∀ a, x ≤ a → align ∣ a → alignUp x align ≤ a := by
  have hdiv := Nat.div_add_mod (x + (align - 1)) align
  have hmod := Nat.mod_lt (x + (align - 1)) h
  have hcomm : (x + (align - 1)) / align * align = align * ((x + (align - 1)) / align) := Nat.mul_comm _ _
  unfold alignUp
  refine ⟨by omega, Dvd.intro_left _ rfl, ?_⟩
  rintro a hle ⟨k, rfl⟩
  have hk : (x + (align - 1)) / align ≤ k := by
    refine Nat.le_of_lt_succ (Nat.div_lt_of_lt_mul ?_)
    rw [Nat.mul_succ]
    omega
  rw [hcomm]
  exact Nat.mul_le_mul_left align hk

theorem pageLxAligned_iff {lvl : Nat} : pageLxAligned a lvl = true ↔ pageLxSize lvl ∣ a := by
  rw [pageLxAligned, decide_eq_true_eq, Nat.dvd_iff_mod_eq_zero]

private theorem pageLxSize_pos (lvl : Nat) : 0 < pageLxSize lvl := by
  induction lvl with
  | zero => decide
  | succ lvl ih => exact Nat.mul_pos (by decide) ih

def Free (l : List (Vma O N)) (a len : Nat) : Prop := ∀ v ∈ l, a + len ≤ v.start ∨ v.stop ≤ a

/-- The lowest aligned address from `vaddr` on where the range is free. -/
structure Lowest (l : List (Vma O N)) (align len vaddr va : Nat) : Prop where
  low : vaddr ≤ va
  aligned : align ∣ va
  free : Free l va len
  least : ∀ a, vaddr ≤ a → align ∣ a → Free l a len → va ≤ a

private theorem firstFit_lowest {base : Nat} (halign : 0 < align) (hs : Sound E l) (hbase : base ≤ vaddr)
    (hle : ∀ v ∈ l, vaddr ≤ max v.stop base) (h : vmemFirstFit base align len vaddr l = va) (hva : va ≠ vaddrInv) :
    Lowest l align len vaddr va := by
  induction l generalizing vaddr with
  | nil =>
    obtain ⟨hup, hdvd, hleast⟩ := alignUp_spec vaddr halign
    unfold vmemFirstFit at h
    split_ifs at h
    · exact absurd h.symm hva
    · subst h
      exact ⟨hup, hdvd, nofun, fun a h1 h2 _ => hleast a h1 h2⟩
  | cons cur l ih =>
    obtain ⟨hup, hdvd, hleast⟩ := alignUp_spec vaddr halign
    obtain ⟨⟨hne, -⟩, hl, hcur⟩ := apart_cons.1 hs
    unfold vmemFirstFit at h
    split_ifs at h with _ _ hroom
    · exact absurd h.symm hva
    · exact absurd h.symm hva
    · subst h
      exact ⟨hup, hdvd, fun v hv => .inl (Nat.le_trans hroom (hs.head_le hv)), fun a h1 h2 _ => hleast a h1 h2⟩
    · have hnext : ∀ v ∈ l, max cur.stop base ≤ max v.stop base := fun v hv => by
        have := hcur v hv
        have := (hl.each v hv).1
        omega
      obtain ⟨h1, h2, h3, h4⟩ := ih hl (Nat.le_max_right _ _) hnext h
      have hmax := hle cur mem_cons_self
      refine ⟨by omega, h2, forall_mem_cons.2 ⟨.inr (by omega), h3⟩, fun a ha hd hfree => ?_⟩
      obtain ⟨hhere, hrest⟩ := forall_mem_cons.1 hfree
      have := hleast a ha hd
      exact h4 a (by omega) hd hrest

def EndsMapped (l : List (Vma O N)) (vaddr len : Nat) : Prop := view l vaddr ≠ none ∧ view l (vaddr + len - 1) ≠ none

/-- The areas found have the length of the range if and only if both its ends are mapped. -/
theorem Found.Cut.len_eq_iff (hc : f.Cut none vaddr (vaddr + len)) (h : Sound E f.list) :
    f.vmaEnd.stop - f.vmaStart.start = len ↔ EndsMapped f.list vaddr len := by
  have hs := hc.start.resolve_right nofun
  have he := hc.stop.resolve_right nofun
  have hs' := hc.startLt
  have hmem {v : Vma O N} (hv : v ∈ f.mid) : v ∈ f.list := by simp [list, hv]
  have hne := (h.each _ (hmem vmaStart_mem)).1
  have hne' := (h.each _ (hmem vmaEnd_mem)).1
  have hmid {v : Vma O N} (hv : v ∈ f.mid) : f.vmaStart.start ≤ v.start ∧ v.stop ≤ f.vmaEnd.stop := by
    obtain ⟨hfirst, hlast⟩ := ordered h hv
    exact ⟨by rcases hfirst with rfl | hle <;> omega, by rcases hlast with rfl | hle <;> omega⟩
  have hend := hmid vmaEnd_mem
  constructor
  · intro heq
    constructor
    · rw [view, h.look_of_mem (hmem vmaStart_mem) (by omega) hs']
      exact Option.some_ne_none _
    · rw [view, h.look_of_mem (hmem vmaEnd_mem) (by omega) (by omega)]
      exact Option.some_ne_none _
  · rintro ⟨hfirst, hlast⟩
    have hin {a : Nat} (h1 : vaddr ≤ a) (h2 : a < vaddr + len) (ha : view f.list a ≠ none) :
        f.vmaStart.start ≤ a ∧ a < f.vmaEnd.stop := by
      rw [list, view_parts hc.before hc.after h1 h2] at ha
      obtain ⟨p, hp⟩ := Option.ne_none_iff_exists'.1 ha
      obtain ⟨v, hv, ⟨h3, h4⟩, -⟩ := look_eq_some hp
      have := hmid hv
      omega
    have := hin (Nat.le_refl _) (by omega) hfirst
    have := hin (by omega) (by omega) hlast
    omega

private theorem vmemVmaFind_none (h : vmemVmaFind l vaddr len = some none) (hlen : 0 < len) : Free l vaddr len := by
  unfold vmemVmaFind at h
  split_ifs at h
  intro v hv
  have := find?_eq_none.1 (Option.some.inj h) v hv
  simp only [Vma.overlaps, Bool.and_eq_true, decide_eq_true_eq, not_and] at this
  omega

section
variable [DecidableEq O] [DecidableEq N] {cfg : Config O} {env : Env O N P} {vas vas' : Vas O N P} {m : MapArgs O N}
  {mid kept : List (Vma O N)} {r : Except Errno Nat}

/-- The new area shows, and the rest shows as before. -/
theorem insertAndMerge_spec (hs : Sound E l) (hv : v.start < v.stop)
    (hends : E.holds v.pageLvl v.start ∧ E.holds v.pageLvl v.stop) (h : insertAndMerge env l v = some l') :
    Sound E l' ∧ ∀ a, view l' a = if v.start ≤ a ∧ a < v.stop then some v.props else view l a := by
  unfold insertAndMerge at h
  split at h
  next => cases h
  next => cases h
  next hfind =>
    cases h
    have hfree := vmemVmaFind_none hfind (Nat.sub_pos_of_lt hv)
    have hl := takeWhile_append_dropWhile (p := fun cur : Vma O N => decide (cur.stop ≤ v.start)) (l := l)
    have hA : ∀ w ∈ l.takeWhile fun cur => decide (cur.stop ≤ v.start), w.stop ≤ v.start :=
      fun w hw => by simpa using mem_takeWhile_imp hw
    have hhead := head?_dropWhile_not (fun cur : Vma O N => decide (cur.stop ≤ v.start)) l
    generalize (l.takeWhile fun cur => decide (cur.stop ≤ v.start)) = A at hl hA
    generalize (l.dropWhile fun cur => decide (cur.stop ≤ v.start)) = B at hl hhead
    subst hl
    have hB : ∀ w ∈ B, v.stop ≤ w.start := by
      cases B with
      | nil => exact nofun
      | cons b B =>
        have hb := hfree b (by simp)
        have hab : ¬ b.stop ≤ v.start := of_decide_eq_false (by simpa using hhead)
        exact fun w hw => Nat.le_trans (by omega) ((apart_append.1 hs).2.1.head_le hw)
    have hins := reshaped_tryMerge env (hs.insert ⟨hv, hends⟩ hA hB)
    exact ⟨hins.sound, fun a => (hins.view a).trans (look_insert hA)⟩

def Env.Populates (env : Env O N P) : Prop :=
  ∀ flags name, env.new = .ok (flags, name) → populateFlag flags = true → ∀ vma pt, (env.populate vma pt).2 = none

/-- The area that was asked for is there, and the rest of the view is that of `l`. -/
def Shows (env : Env O N P) (m : MapArgs O N) (va len : Nat) (l l' : List (Vma O N)) : Prop :=
  ∃ flags name, env.new = .ok (flags, name) ∧
    ∀ a, view l' a = if va ≤ a ∧ a < va + len then some (m.vma va len flags name).props else view l a

/-- The range shows the new area, or the call has failed: nothing has changed, or only the new area is missing. -/
theorem mapAt_spec (hs : Sound E kept) (hlen : 0 < len)
    (hends : E.holds (mapLvl m.flags) va ∧ E.holds (mapLvl m.flags) (va + len))
    (h : mapAt cfg env vas m va len mid kept = some (vas', r)) :
    (r = .ok va ∧ Sound E vas'.vmaList ∧ Shows env m va len kept vas'.vmaList) ∨
      ((∃ e, r = .error e) ∧ (vas' = vas ∨ vas'.vmaList = kept ∧ ¬ env.Populates)) := by
  unfold mapAt at h
  split_ifs at h
  · cases h
    exact .inr ⟨⟨_, rfl⟩, .inl rfl⟩
  split at h
  next =>
    cases h
    exact .inr ⟨⟨_, rfl⟩, .inl rfl⟩
  next flags name hnew =>
    split at h
    next => cases h
    next pt hpt =>
      split at h
      next => cases h
      next => cases h
      next =>
        dsimp only at h
        split at h
        next e he =>
          cases h
          refine .inr ⟨⟨e, rfl⟩, .inr ⟨rfl, fun hpop => ?_⟩⟩
          split_ifs at he with hflag
          rw [hpop flags name hnew hflag] at he
          cases he
        next =>
          split at h
          next => cases h
          next l' hins =>
            cases h
            obtain ⟨hsound, hview⟩ := insertAndMerge_spec hs (Nat.lt_add_of_pos_right hlen) hends hins
            exact .inl ⟨rfl, hsound, flags, name, hnew, hview⟩

def Replaces (l : List (Vma O N)) (vaddr len : Nat) : Prop := vaddr ≠ vaddrAny ∧ ¬ Free l vaddr len

def Placed (env : Env O N P) (vas : Vas O N P) (vaddr : Nat) (m : MapArgs O N) (va : Nat) : Prop :=
  if vaddr = vaddrAny then Lowest vas.vmaList (pageLxSize ((mapLvl m.flags).getD 0)) m.len
    (env.getBase.getD vas.vmaBase) va
  else va = vaddr

def Mapped (env : Env O N P) (vas : Vas O N P) (vaddr : Nat) (m : MapArgs O N) (l' : List (Vma O N)) :
    Except Errno Nat → Prop
  | .error _ => (∀ a, view l' a = view vas.vmaList a) ∨ (Replaces vas.vmaList vaddr m.len ∧ ¬ env.Populates)
  | .ok va => Placed env vas vaddr m va ∧
      (Shows env m va m.len vas.vmaList l' ↔ (Replaces vas.vmaList vaddr m.len → EndsMapped vas.vmaList vaddr m.len))

private theorem Mapped.of_free (hs : Sound E vas.vmaList) (hlen : 0 < m.len)
    (hva : pageLxSize ((mapLvl m.flags).getD 0) ∣ va)
    (hdvd : pageLxSize ((mapLvl m.flags).getD 0) ∣ m.len) (hplaced : Placed env vas vaddr m va)
    (hfree : ¬ Replaces vas.vmaList vaddr m.len) (h : mapAt cfg env vas m va m.len [] vas.vmaList = some (vas', r)) :
    Sound E vas'.vmaList ∧ Mapped env vas vaddr m vas'.vmaList r := by
  have hends := E.aligned (pageLxAligned_iff.2 (Nat.dvd_add hva hdvd))
  rcases mapAt_spec hs hlen ⟨E.aligned (pageLxAligned_iff.2 hva), hends⟩ h
    with ⟨rfl, hsound, hshow⟩ | ⟨⟨e, rfl⟩, hsame⟩
  · exact ⟨hsound, hplaced, iff_of_true hshow fun hr => absurd hr hfree⟩
  · have hl : vas'.vmaList = vas.vmaList := hsame.elim (congrArg Vas.vmaList) And.left
    rw [hl]
    exact ⟨hs, .inl fun _ => rfl⟩

private theorem Mapped.of_cut (hf : Reshaped E vas.vmaList f.list) (hcut : f.Cut none vaddr (vaddr + m.len))
    (hrep : Replaces vas.vmaList vaddr m.len) (hlt : f.vmaStart.start < f.vmaEnd.stop)
    (hends : E.holds (mapLvl m.flags) vaddr ∧ E.holds (mapLvl m.flags) (vaddr + (f.vmaEnd.stop - f.vmaStart.start)))
    (h : mapAt cfg env { vas with vmaList := f.list } m vaddr (f.vmaEnd.stop - f.vmaStart.start) f.mid
      (f.before ++ f.after) =
      some (vas', r)) : Sound E vas'.vmaList ∧ Mapped env vas vaddr m vas'.vmaList r := by
  have hkept := sound_without hf.sound
  have hlen : f.vmaEnd.stop - f.vmaStart.start = m.len ↔ EndsMapped vas.vmaList vaddr m.len := by
    rw [hcut.len_eq_iff hf.sound, EndsMapped, hf.view, hf.view, EndsMapped]
  have hle : f.vmaEnd.stop - f.vmaStart.start ≤ m.len := by
    have := hcut.start.resolve_right nofun
    have := hcut.stop.resolve_right nofun
    omega
  rcases mapAt_spec hkept (by omega) hends h with ⟨rfl, hsound, flags, name, hnew, hview⟩ | ⟨⟨e, rfl⟩, hsame⟩
  · refine ⟨hsound, by rw [Placed, if_neg hrep.1], fun ⟨flags', name', _, hview'⟩ _ => ?_, fun hmapped => ?_⟩
    · by_contra hne
      have hlt' := Nat.lt_of_le_of_ne hle (mt hlen.1 hne)
      have hbad := hview (vaddr + (f.vmaEnd.stop - f.vmaStart.start))
      rw [hview', if_pos (by omega), if_neg (by omega), hcut.view_without hf.sound, if_pos (by omega)] at hbad
      cases hbad
    · have heq := hlen.2 (hmapped hrep)
      rw [heq] at hview
      refine ⟨flags, name, hnew, fun a => (hview a).trans ?_⟩
      rw [hcut.view_without hf.sound, hf.view]
      split_ifs <;> rfl
  · rcases hsame with rfl | ⟨hl, hpop⟩
    · exact ⟨hf.sound, .inl hf.view⟩
    · rw [hl]
      exact ⟨hkept, .inr ⟨hrep, hpop⟩⟩

inductive Call (O N P : Type)
  | map (env : Env O N P) (vaddr : Nat) (m : MapArgs O N)
  | unmap (env : Env O N P) (vaddr len flags : Nat)
  | setAttr (env : Env O N P) (vaddr len attr flags : Nat)

/-- If the call replaces areas, the end of the new area is as it should be. -/
def Call.EndsWell (E : Ends) (vas : Vas O N P) : Call O N P → Prop
  | .map _ vaddr m => ∀ f : Found O N, Reshaped E vas.vmaList f.list → f.Cut none vaddr (vaddr + m.len) →
      Replaces vas.vmaList vaddr m.len → pageLxSize ((mapLvl m.flags).getD 0) ∣ vaddr →
      pageLxSize ((mapLvl m.flags).getD 0) ∣ m.len → E.holds (mapLvl m.flags)
      (vaddr + (f.vmaEnd.stop - f.vmaStart.start))
  | _ => True

/-- Whatever the outcome, the areas are in order, if the end of an area that replaces others is as it should be. -/
theorem ukVmaMap_spec (hs : Sound E vas.vmaList) (hrep : (Call.map env vaddr m).EndsWell E vas)
    (h : ukVmaMap cfg env vas vaddr m = some (vas', r)) :
    Sound E vas'.vmaList ∧ Mapped env vas vaddr m vas'.vmaList r := by
  have hfail {e : Errno} (h : some (vas, .error e) = some (vas', r)) :
      Sound E vas'.vmaList ∧ Mapped env vas vaddr m vas'.vmaList r := by
    cases h
    exact ⟨hs, .inl fun _ => rfl⟩
  unfold ukVmaMap at h
  dsimp only at h
  by_cases hzero : m.len = 0
  · rw [if_pos hzero] at h
    cases h
  rw [if_neg hzero] at h
  split at h
  next => cases h
  split at h
  next => exact hfail h
  next hlen =>
    have hdvd := pageLxAligned_iff.1 (Bool.not_eq_false _ ▸ hlen)
    split at h
    next hany =>
      split at h
      next => exact hfail h
      next hinv =>
        have hlow := firstFit_lowest (pageLxSize_pos _) hs (Nat.le_refl _) (fun v _ => Nat.le_max_right _ _) rfl hinv
        exact Mapped.of_free hs (Nat.pos_of_ne_zero hzero) hlow.aligned hdvd (by rw [Placed, if_pos hany]; exact hlow)
          (fun hr => hr.1 hany) h
    next hany =>
      split at h
      next => exact hfail h
      next hal =>
        have hva := pageLxAligned_iff.1 (Bool.not_eq_false _ ▸ hal)
        split at h
        next => cases h
        next hfind =>
          exact Mapped.of_free hs (Nat.pos_of_ne_zero hzero) hva hdvd (by rw [Placed, if_neg hany])
            (fun hr => hr.2 (vmemVmaFind_none hfind (Nat.pos_of_ne_zero hzero))) h
        next w hfind =>
          have hr : Replaces vas.vmaList vaddr m.len := by
            refine ⟨hany, fun hfree => ?_⟩
            unfold vmemVmaFind at hfind
            split_ifs at hfind
            have hw := Option.some.inj hfind
            have hov := find?_some hw
            simp only [Vma.overlaps, Bool.and_eq_true, decide_eq_true_eq] at hov
            have := hfree w (mem_of_find?_eq_some hw)
            omega
          split at h
          next => exact hfail h
          next =>
            have hsplit := splitVmas_spec cfg env vaddr none (strictFlag m.flags) hs (Nat.pos_of_ne_zero hzero)
            split at h
            next => cases h
            next e l heq =>
              rw [heq] at hsplit
              cases h
              exact ⟨hsplit.1.sound, .inl hsplit.1.view⟩
            next f heq =>
              rw [heq] at hsplit
              split at h
              next => cases h
              next hlt =>
                exact Mapped.of_cut hsplit.1 hsplit.2.1 hr (Nat.lt_of_not_le hlt)
                  ⟨E.aligned (pageLxAligned_iff.2 hva), hrep f hsplit.1 hsplit.2.1 hr hva hdvd⟩ h

end

variable {cfg : Config O} {env : Env O N P} {vas vas' : Vas O N P} {m : MapArgs O N} {c : Call O N P}

def Ends.any : Ends := ⟨fun _ _ => True, fun _ => trivial⟩

def Ends.level : Ends := ⟨fun lvl a => pageLxAligned a (lvl.getD 0) = true, id⟩

/-- The condition on a call: if it maps and replaces areas, both ends of its range are mapped or it does not ask for
large pages, and it does not fail to populate the new area. -/
def Call.fine (vas : Vas O N P) : Call O N P → Prop
  | .map env vaddr m => Replaces vas.vmaList vaddr m.len →
      env.Populates ∧ ((mapLvl m.flags).getD 0 = 0 ∨ EndsMapped vas.vmaList vaddr m.len)
  | _ => True

private theorem pageLxSize_dvd (lvl : Nat) : pageLxSize 0 ∣ pageLxSize lvl := by
  induction lvl with
  | zero => exact Nat.dvd_refl _
  | succ lvl ih => exact Nat.dvd_mul_left_of_dvd ih 512

private theorem Call.endsWell_of_fine (h : c.fine vas) : c.EndsWell Ends.level vas := by
  cases c with
  | unmap => trivial
  | setAttr => trivial
  | map env vaddr m =>
    intro f hf hcut hrep hva hlen
    refine pageLxAligned_iff.2 (Nat.dvd_add hva ?_)
    rcases (h hrep).2 with hlvl | hmapped
    · rw [hlvl]
      have haligned {v : Vma O N} (hv : v ∈ f.mid) : pageLxSize 0 ∣ v.start ∧ pageLxSize 0 ∣ v.stop := by
        obtain ⟨-, h1, h2⟩ := hf.sound.each v (by simp [Found.list, hv])
        exact ⟨(pageLxSize_dvd _).trans (pageLxAligned_iff.1 h1), (pageLxSize_dvd _).trans (pageLxAligned_iff.1 h2)⟩
      exact Nat.dvd_sub (haligned Found.vmaEnd_mem).2 (haligned Found.vmaStart_mem).1
    · have hends : EndsMapped f.list vaddr m.len := by
        rw [EndsMapped, hf.view, hf.view]
        exact hmapped
      rw [(hcut.len_eq_iff hf.sound).2 hends]
      exact hlen

variable [DecidableEq O] [DecidableEq N]

def Call.exec (cfg : Config O) (vas : Vas O N P) : Call O N P → Option (Vas O N P)
  | .map env vaddr m => (ukVmaMap cfg env vas vaddr m).map Prod.fst
  | .unmap env vaddr len flags => (ukVmaUnmap cfg env vas vaddr len flags).map Prod.fst
  | .setAttr env vaddr len attr flags => (ukVmaSetAttr cfg env vas vaddr len attr flags).map Prod.fst

/-- The address spaces that calls which are `ok` lead to, from one without areas on. -/
inductive Reached (cfg : Config O) (ok : Vas O N P → Call O N P → Prop) : Vas O N P → Prop
  | start (base : Nat) (pt : P) : Reached cfg ok ⟨base, [], pt⟩
  | call {vas vas' : Vas O N P} {c : Call O N P} : Reached cfg ok vas → ok vas c → c.exec cfg vas = some vas' →
      Reached cfg ok vas'

private theorem Call.sound (hs : Sound E vas.vmaList) (hc : c.EndsWell E vas) (h : c.exec cfg vas = some vas') :
    Sound E vas'.vmaList := by
  cases c with
  | map env vaddr m =>
    obtain ⟨⟨vas1, r⟩, hr, rfl⟩ := Option.map_eq_some_iff.1 h
    exact (ukVmaMap_spec hs hc hr).1
  | unmap env vaddr len flags => exact (unmap_pagewise flags hs).sound h
  | setAttr env vaddr len attr flags => exact (setAttr_pagewise flags hs).sound h

private theorem Reached.sound {ok : Vas O N P → Call O N P → Prop} (hok : ∀ vas c, ok vas c → c.EndsWell E vas)
    (h : Reached cfg ok vas) : Sound E vas.vmaList := by
  induction h with
  | start base pt => exact ⟨nofun, List.Pairwise.nil⟩
  | call _ hc hexec ih => exact Call.sound ih (hok _ _ hc) hexec

/-- A mapping that does not populate shows exactly the range that was asked for, at its address or the lowest one that
fits, if and only if it replaces nothing or both ends of the range were mapped. -/
theorem ukVmaMap_covers {r : Except Errno Nat} (hreach : Reached cfg (fun _ _ => True) vas)
    (hpop : ∀ flags name, env.new = .ok (flags, name) → populateFlag flags = false)
    (h : ukVmaMap cfg env vas vaddr m = some (vas', r)) :
    (∀ e, r = .error e → ∀ a, view vas'.vmaList a = view vas.vmaList a) ∧
      ∀ va, r = .ok va → Placed env vas vaddr m va ∧ (Shows env m va m.len vas.vmaList vas'.vmaList ↔
        (Replaces vas.vmaList vaddr m.len → EndsMapped vas.vmaList vaddr m.len)) := by
  have hany (vas : Vas O N P) (c : Call O N P) : c.EndsWell Ends.any vas := by
    cases c with
    | map env vaddr m => exact fun _ _ _ _ _ _ => trivial
    | unmap | setAttr => trivial
  have hmapped := (ukVmaMap_spec (hreach.sound fun vas c _ => hany vas c) (hany vas (.map env vaddr m)) h).2
  refine ⟨?_, ?_⟩
  · rintro e rfl
    refine hmapped.resolve_right fun hbad => hbad.2 fun flags name hnew hflag => ?_
    rw [hpop flags name hnew] at hflag
    cases hflag
  · rintro va rfl
    exact hmapped

/-- The areas are in order, apart and aligned to their levels afterwards, an error leaves the view as it is, and the
calls for a range act on its mapped pages. -/
def Call.Correct (cfg : Config O) (vas : Vas O N P) : Call O N P → Prop
  | .map env vaddr m => ∀ vas' r, ukVmaMap cfg env vas vaddr m = some (vas', r) →
      Sound Ends.level vas'.vmaList ∧ ∀ e, r = .error e → ∀ a, view vas'.vmaList a = view vas.vmaList a
  | .unmap env vaddr len flags =>
    Pagewise Ends.level vas.vmaList vaddr len (strictFlag flags) (fun _ => none)
    (ukVmaUnmap cfg env vas vaddr len flags)
  | .setAttr env vaddr len attr flags =>
    Pagewise Ends.level vas.vmaList vaddr len (strictFlag flags) (fun p => some (p.setAttr cfg attr))
      (ukVmaSetAttr cfg env vas vaddr len attr flags)

/-- In every run of such calls the areas are in order, apart and aligned to their levels, and every call acts page by
page. -/
theorem calls_pagewise (hreach : Reached cfg Call.fine vas) (hc : c.fine vas) :
    Sound Ends.level vas.vmaList ∧ c.Correct cfg vas := by
  have hs := hreach.sound fun vas c => Call.endsWell_of_fine
  refine ⟨hs, ?_⟩
  cases c with
  | map env vaddr m =>
    intro vas' r h
    obtain ⟨hsound, hmapped⟩ := ukVmaMap_spec hs (Call.endsWell_of_fine hc) h
    refine ⟨hsound, ?_⟩
    rintro e rfl
    exact hmapped.resolve_right fun hbad => hbad.2 (hc hbad.1).1
  | unmap env vaddr len flags => exact unmap_pagewise flags hs
  | setAttr env vaddr len attr flags => exact setAttr_pagewise flags hs

/-- Whatever was mapped before, also where a mapping has left the end of an area unaligned, the areas are in order and
apart, and the calls for a range act on its mapped pages. -/
theorem ranges_pagewise (hreach : Reached cfg (fun _ _ => True) vas) (env : Env O N P) (vaddr len attr flags : Nat) :
    Sound Ends.any vas.vmaList ∧
      Pagewise Ends.any vas.vmaList vaddr len (strictFlag flags) (fun _ => none)
      (ukVmaUnmap cfg env vas vaddr len flags) ∧
      Pagewise Ends.any vas.vmaList vaddr len (strictFlag flags) (fun p => some (p.setAttr cfg attr))
        (ukVmaSetAttr cfg env vas vaddr len attr flags) := by
  have hsound : Sound Ends.any vas.vmaList := hreach.sound fun vas c _ => by
    cases c with
    | map env vaddr m => exact fun _ _ _ _ _ _ => trivial
    | unmap | setAttr => trivial
  exact ⟨hsound, unmap_pagewise flags hsound, setAttr_pagewise flags hsound⟩

def anyRange : Config Unit := ⟨fun _ _ => true, fun _ => true⟩

def noFault : Env Unit Unit Unit :=
  ⟨none, .ok (0, none), fun _ _ => none, fun _ _ => true, fun _ pt => some pt, fun _ _ pt => some pt,
      fun _ pt => (pt, none)⟩

def replacing (len order : Nat) : MapArgs Unit Unit := ⟨len, 1, 4 + order <<< 5, none, ()⟩

def onePage : Vas Unit Unit Unit := ⟨0, [⟨0x2000, 0x3000, (), 1, 0, none, none⟩], ()⟩

private theorem onePage_reached {ok : Vas Unit Unit Unit → Call Unit Unit Unit → Prop}
    (h : ok ⟨0, [], ()⟩ (.map noFault 0x2000 (replacing 0x1000 0))) : Reached anyRange ok onePage :=
  .call (.start 0 ()) h rfl

theorem ukVmaMap_covers_onePage : Placed noFault onePage 0x2000 (replacing 0x1000 0) 0x2000 ∧
    (Shows noFault (replacing 0x1000 0) 0x2000 0x1000 onePage.vmaList onePage.vmaList ↔
      (Replaces onePage.vmaList 0x2000 0x1000 → EndsMapped onePage.vmaList 0x2000 0x1000)) := by
  have h : ukVmaMap anyRange noFault onePage 0x2000 (replacing 0x1000 0) = some (onePage, .ok 0x2000) := rfl
  refine (ukVmaMap_covers (onePage_reached trivial) ?_ h).2 0x2000 rfl
  rintro flags name ⟨⟩
  rfl

/-- A mapping of two pages replaces the second one, and only the first one is mapped afterwards. -/
theorem not_ukVmaMap_covers : Reached anyRange (fun _ _ => True) onePage ∧
    ∃ vas', ukVmaMap anyRange noFault onePage 0x1000 (replacing 0x2000 0) = some (vas', .ok 0x1000) ∧
      ¬ Shows noFault (replacing 0x2000 0) 0x1000 0x2000 onePage.vmaList vas'.vmaList := by
  refine ⟨onePage_reached trivial, _, rfl, ?_⟩
  rintro ⟨flags, name, -, hview⟩
  have hbad := hview 0x2000
  cases hbad

/-- Four pages are mapped, the second is unmapped, which splits the area, and the third is replaced by a page with
other attributes. -/
def replaced : Vas Unit Unit Unit :=
  ⟨0, [⟨0x2000, 0x3000, (), 1, 0, none, none⟩, ⟨0x4000, 0x5000, (), 3, 0, none, none⟩,
    ⟨0x5000, 0x6000, (), 1, 0, none, none⟩], ()⟩

private theorem replaced_reached {ok : Vas Unit Unit Unit → Call Unit Unit Unit → Prop}
    (hunmap : ∀ vas, ok vas (.unmap noFault 0x3000 0x1000 0))
    (hmap : ∀ vas vaddr len attr, ok vas (.map noFault vaddr { replacing len 0 with attr := attr })) :
    Reached anyRange ok replaced := by
  have hfour : Reached anyRange ok ⟨0, [⟨0x2000, 0x6000, (), 1, 0, none, none⟩], ()⟩ :=
    .call (.start 0 ()) (hmap _ 0x2000 0x4000 1) rfl
  have hsplit : Reached anyRange ok
      ⟨0, [⟨0x2000, 0x3000, (), 1, 0, none, none⟩, ⟨0x4000, 0x6000, (), 1, 0, none, none⟩], ()⟩ :=
    .call hfour (hunmap _) rfl
  exact .call hsplit (hmap _ 0x4000 0x1000 3) rfl

/-- The call goes over the hole and the three areas, two of which it cuts. -/
theorem calls_pagewise_replaced : Sound Ends.level replaced.vmaList ∧
    Call.Correct anyRange replaced (.setAttr noFault 0x2000 0x3800 5 0) := by
  have hlvl : (mapLvl (4 + 0 <<< 5)).getD 0 = 0 := by decide
  exact calls_pagewise (replaced_reached (fun _ => trivial) fun _ _ _ _ _ =>
    ⟨fun _ _ h _ _ _ => by cases h; rfl, .inl hlvl⟩) trivial

theorem ranges_pagewise_replaced : Sound Ends.any replaced.vmaList ∧
    Pagewise Ends.any replaced.vmaList 0x2000 0x2800 false (fun _ => none)
      (ukVmaUnmap anyRange noFault replaced 0x2000 0x2800 0) ∧
    Pagewise Ends.any replaced.vmaList 0x2000 0x2800 false (fun p => some (p.setAttr anyRange 5))
      (ukVmaSetAttr anyRange noFault replaced 0x2000 0x2800 5 0) :=
  ranges_pagewise (replaced_reached (fun _ => trivial) fun _ _ _ _ => trivial) noFault 0x2000 0x2800 5 0

/-- A large page replaces the page, and the new area has the length of the small one. -/
theorem not_calls_pagewise : ∃ vas : Vas Unit Unit Unit, Reached anyRange (fun _ _ => True) vas ∧
    ¬ Sound Ends.level vas.vmaList := by
  refine ⟨⟨0, [⟨0, 0x1000, (), 1, 0, some 1, none⟩], ()⟩, ?_, fun h => ?_⟩
  · exact .call (c := .map noFault 0 (replacing 0x200000 21)) (onePage_reached trivial) trivial rfl
  · exact absurd (h.each _ List.mem_cons_self).2.2 (show ¬ pageLxAligned 0x1000 1 = true by decide)

end Unikraft.Vmem
