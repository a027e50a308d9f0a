import Mathlib.Tactic.Common

/-!
# Runs of a step function

A system is a step function `step : σ → ι → σ`; a run is a list of inputs. `Meets step ok s is` says that every
step of the run from `s` meets the condition `ok` in the state it starts from, and `Meets.invariant` is the
induction rule: what every such step preserves holds at the end of every such run.
-/

namespace Runs

variable {σ ι : Type} {step : σ → ι → σ} {ok : σ → ι → Prop} {I : σ → Prop}

def run (step : σ → ι → σ) (s : σ) (is : List ι) : σ := is.foldl step s

/-- Every step of the run meets `ok` in the state before it. -/
def Meets (step : σ → ι → σ) (ok : σ → ι → Prop) : σ → List ι → Prop
  | _, [] => True
  | s, i :: is => ok s i ∧ Meets step ok (step s i) is

instance decidableMeets {step : σ → ι → σ} {ok : σ → ι → Prop} [∀ s i, Decidable (ok s i)] :
    ∀ s is, Decidable (Meets step ok s is)
  | _, [] => isTrue trivial
  | s, i :: is => @instDecidableAnd _ _ _ (decidableMeets (step s i) is)

def Always (step : σ → ι → σ) (P : σ → Prop) : σ → List ι → Prop
  | s, [] => P s
  | s, i :: is => P s ∧ Always step P (step s i) is

@[simp] theorem run_nil (s : σ) : run step s [] = s := rfl

@[simp] theorem run_cons (s : σ) (i : ι) (is : List ι) : run step s (i :: is) = run step (step s i) is := rfl

theorem run_append (s : σ) (is js : List ι) : run step s (is ++ js) = run step (run step s is) js := by
  unfold run; exact List.foldl_append

variable {s : σ} {is : List ι} {P : σ → Prop} {ok' : σ → ι → Prop}

theorem meets_append {js : List ι} : Meets step ok s (is ++ js) ↔
    Meets step ok s is ∧ Meets step ok (run step s is) js := by
  induction is generalizing s with
  | nil => exact ⟨fun h => ⟨trivial, h⟩, And.right⟩
  | cons i is ih =>
    exact ⟨fun h => ⟨⟨h.1, (ih.1 h.2).1⟩, (ih.1 h.2).2⟩, fun h => ⟨h.1.1, ih.2 ⟨h.1.2, h.2⟩⟩⟩

/-- An invariant of the steps that meet a condition holds after a run of such steps. -/
theorem Meets.invariant (hstep : ∀ s i, I s → ok s i → I (step s i)) (hs : I s) (hm : Meets step ok s is) :
    I (run step s is) := by
  induction is generalizing s with
  | nil => exact hs
  | cons i is ih => exact ih (hstep s i hs hm.1) hm.2

/-- An invariant of all steps holds after every run. -/
theorem run_invariant (hstep : ∀ s i, I s → I (step s i)) (hs : I s) (is : List ι) : I (run step s is) := by
  induction is generalizing s with
  | nil => exact hs
  | cons i is ih => exact ih (hstep s i hs)

/-- What follows from an invariant holds in every state of a run whose steps meet the condition. -/
theorem Meets.always (hstep : ∀ s i, I s → ok s i → I (step s i)) (hP : ∀ s, I s → P s)
    (hs : I s) (hm : Meets step ok s is) : Always step P s is := by
  induction is generalizing s with
  | nil => exact hP s hs
  | cons i is ih => exact ⟨hP s hs, ih (hstep s i hs hm.1) hm.2⟩

theorem run_always (hstep : ∀ s i, I s → I (step s i)) (hP : ∀ s, I s → P s) (hs : I s) (is : List ι) :
    Always step P s is := by
  induction is generalizing s with
  | nil => exact hP s hs
  | cons i is ih => exact ⟨hP s hs, ih (hstep s i hs)⟩

private theorem Always.head (h : Always step P s is) : P s := by
  cases is with
  | nil => exact h
  | cons i is => exact h.1

theorem Always.last (h : Always step P s is) : P (run step s is) := by
  induction is generalizing s with
  | nil => exact h
  | cons i is ih => exact ih h.2

theorem Meets.imp (h : ∀ s i, ok s i → ok' s i) (hm : Meets step ok s is) : Meets step ok' s is := by
  induction is generalizing s with
  | nil => trivial
  | cons i is ih => exact ⟨h s i hm.1, ih hm.2⟩

/-- The condition may use the invariant. -/
theorem Meets.with_invariant (hstep : ∀ s i, I s → ok s i → I (step s i)) (hs : I s)
    (hm : Meets step ok s is) : Meets step (fun s i => ok s i ∧ I s) s is := by
  induction is generalizing s with
  | nil => trivial
  | cons i is ih => exact ⟨⟨hm.1, hs⟩, ih (hstep s i hs hm.1) hm.2⟩

theorem Meets.of_always (h : ∀ s i, P s → ok s i → P (step s i) → ok' s i)
    (hm : Meets step ok s is) (ha : Always step P s is) : Meets step ok' s is := by
  induction is generalizing s with
  | nil => trivial
  | cons i is ih => exact ⟨h s i ha.1 hm.1 ha.2.head, ih hm.2 ha.2⟩

/-- If from states with the property exactly the steps that meet `ok` keep it, exactly the runs that meet `ok` have it
throughout. -/
theorem always_iff_meets (hI : ∀ s i, I s → I (step s i)) (h : ∀ s i, I s → P s → (P (step s i) ↔ ok s i)) (hs : I s)
    (hP : P s) :
    Always step P s is ↔ Meets step ok s is := by
  induction is generalizing s with
  | nil => exact ⟨fun _ => trivial, fun _ => hP⟩
  | cons i is ih =>
    constructor
    · intro ha
      have hP' := ha.2.head
      exact ⟨(h s i hs hP).1 hP', (ih (hI s i hs) hP').1 ha.2⟩
    · intro hm
      exact ⟨hP, (ih (hI s i hs) ((h s i hs hP).2 hm.1)).2 hm.2⟩

/-- If the first step that does not meet `ok` breaks the property for good, exactly the runs that meet `ok` end with
it. -/
theorem run_iff_meets {Q : σ → Prop} (hI : ∀ s i, I s → I (step s i))
    (hok : ∀ s i, I s → P s → ok s i → P (step s i)) (hbad : ∀ s i, I s → P s → ¬ ok s i → Q (step s i))
    (hQ : ∀ s i, I s → Q s → Q (step s i)) (hPQ : ∀ s, Q s → ¬ P s) (hs : I s) (hP : P s) :
    P (run step s is) ↔ Meets step ok s is := by
  induction is generalizing s with
  | nil => exact ⟨fun _ => trivial, fun _ => hP⟩
  | cons i is ih =>
    by_cases hi : ok s i
    · rw [run_cons, ih (hI s i hs) (hok s i hs hP hi)]
      exact ⟨fun h => ⟨hi, h⟩, And.right⟩
    · have hq : I (run step s (i :: is)) ∧ Q (run step s (i :: is)) :=
        run_invariant (I := fun s => I s ∧ Q s) (fun s i h => ⟨hI s i h.1, hQ s i h.1 h.2⟩)
          ⟨hI s i hs, hbad s i hs hP hi⟩ is
      exact ⟨fun hp => absurd hp (hPQ _ hq.2), fun hm => absurd hm.1 hi⟩

theorem meets_congr (h : ∀ s i, I s → (ok s i ↔ ok' s i)) (hstep : ∀ s i, I s → ok' s i → I (step s i)) (hs : I s) :
    Meets step ok s is ↔ Meets step ok' s is := by
  induction is generalizing s with
  | nil => exact Iff.rfl
  | cons i is ih =>
    constructor
    · intro hm
      have hi := (h s i hs).1 hm.1
      exact ⟨hi, (ih (hstep s i hs hi)).1 hm.2⟩
    · intro hm
      exact ⟨(h s i hs).2 hm.1, (ih (hstep s i hs hm.1)).2 hm.2⟩

theorem Meets.and (h : Meets step ok s is) (h' : Meets step ok' s is) :
    Meets step (fun s i => ok s i ∧ ok' s i) s is := by
  induction is generalizing s with
  | nil => trivial
  | cons i is ih => exact ⟨⟨h.1, h'.1⟩, ih h.2 h'.2⟩

def outputs {ω : Type} (f : ι → σ → σ × ω) : List ι → σ → σ × List ω
  | [], s => (s, [])
  | i :: is, s =>
    let r := outputs f is (f i s).1
    (r.1, (f i s).2 :: r.2)

/-- A simulation whose steps have the same outputs gives the same outputs over a run. -/
theorem outputs_refine {τ ω : Type} {f : ι → σ → σ × ω} {g : ι → τ → τ × ω} {R : σ → τ → Prop}
    (h : ∀ i s t, R s t → (f i s).2 = (g i t).2 ∧ R (f i s).1 (g i t).1) {t : τ} (hs : R s t) (is : List ι) :
    (outputs f is s).2 = (outputs g is t).2 ∧ R (outputs f is s).1 (outputs g is t).1 := by
  induction is generalizing s t with
  | nil => exact ⟨rfl, hs⟩
  | cons i is ih =>
    obtain ⟨hout, hnext⟩ := h i s t hs
    obtain ⟨houts, hend⟩ := ih hnext
    exact ⟨congrArg₂ List.cons hout houts, hend⟩

end Runs
