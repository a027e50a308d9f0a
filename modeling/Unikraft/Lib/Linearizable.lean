import Mathlib.Data.List.Nodup

/-!
# Linearizability

A history is a list of invocations and responses of operations, each with an identifier. A linearization lists the
operations that took effect, in an order that respects the real time order of the history, such that a sequential
object allows their results. Every operation that has returned is in it, with its result; operations in progress may
be.
-/

namespace Linearizable

open List

variable {ι α ρ σ : Type}

inductive Event (ι α ρ : Type) where
  | inv (id : ι) (op : α)
  | res (id : ι) (ret : ρ)
  deriving DecidableEq

structure Done (ι α ρ : Type) where
  id : ι
  op : α
  ret : ρ
  deriving DecidableEq

def Before (h : List (Event ι α ρ)) (a b : ι) : Prop :=
  ∃ h₁ h₂ r op, h = h₁ ++ h₂ ∧ .res a r ∈ h₁ ∧ .inv b op ∈ h₂

/-- `apply s d` is the state of the sequential object after `d`, or `none` if `d` is not possible in `s`. -/
structure Linearization (apply : σ → Done ι α ρ → Option σ) (s₀ : σ) (h : List (Event ι α ρ)) (l : List (Done ι α ρ))
    (s : σ) : Prop where
  nodup : (l.map Done.id).Nodup
  invoked : ∀ d ∈ l, .inv d.id d.op ∈ h
  completed : ∀ id r, .res id r ∈ h → ∃ op, ⟨id, op, r⟩ ∈ l
  order : l.Pairwise fun a b => ¬ Before h b.id a.id
  legal : l.foldlM apply s₀ = some s

section
variable {apply : σ → Done ι α ρ → Option σ} {s₀ s s' : σ} {h : List (Event ι α ρ)} {l : List (Done ι α ρ)} {id : ι}
    {op : α}
  {r : ρ} {e : Event ι α ρ} {a b : ι}

private theorem Before.of_append (hb : Before (h ++ [e]) a b) : Before h a b ∨ (∃ op, e = .inv b op) ∧ ∃ r,
    .res a r ∈ h := by
  obtain ⟨h1, h2, r, op, heq, ha, hb⟩ := hb
  rcases eq_nil_or_concat h2 with rfl | ⟨h3, e', rfl⟩
  · cases hb
  · rw [concat_eq_append, ← append_assoc] at heq
    obtain ⟨hh, he⟩ := append_inj' heq rfl
    cases he
    rw [concat_eq_append, mem_append, mem_singleton] at hb
    rcases hb with hb | hb
    · exact .inl ⟨h1, h3, r, op, hh, ha, hb⟩
    · refine .inr ⟨⟨op, hb.symm⟩, r, ?_⟩
      rw [hh]
      exact mem_append_left _ ha

private theorem Before.res_mem (hb : Before h a b) : ∃ r, .res a r ∈ h := by
  obtain ⟨h1, h2, r, op, rfl, ha, -⟩ := hb
  exact ⟨r, mem_append_left _ ha⟩

theorem linearization_nil : Linearization apply s₀ [] [] s₀ where
  nodup := nodup_nil
  invoked d hd := by cases hd
  completed id r hr := by cases hr
  order := List.Pairwise.nil
  legal := rfl

section
variable (hl : Linearization apply s₀ h l s)
include hl

/-- An operation that is called takes effect later. -/
theorem Linearization.inv (hid : id ∉ l.map Done.id) : Linearization apply s₀ (h ++ [.inv id op]) l s where
  nodup := hl.nodup
  invoked d hd := mem_append_left _ (hl.invoked d hd)
  completed id' r hr := by
    rw [mem_append, mem_singleton] at hr
    rcases hr with hr | hr
    · exact hl.completed id' r hr
    · cases hr
  order := by
    refine hl.order.imp_of_mem fun {a b} ha _ hab hbefore => ?_
    rcases hbefore.of_append with hbefore | ⟨⟨op', he⟩, -⟩
    · exact hab hbefore
    · cases he
      exact hid (mem_map_of_mem ha)
  legal := hl.legal

/-- An operation that was called and has not returned takes effect. -/
theorem Linearization.lin (hid : id ∉ l.map Done.id) (hinv : .inv id op ∈ h)
    (hres : ∀ r, .res id r ∉ h) (happly : apply s ⟨id, op, r⟩ = some s') :
    Linearization apply s₀ h (l ++ [⟨id, op, r⟩]) s' where
  nodup := by
    rw [map_append, nodup_append]
    refine ⟨hl.nodup, nodup_singleton _, fun a ha b hb => ?_⟩
    rw [map_singleton, mem_singleton] at hb
    rintro rfl
    rw [hb] at ha
    exact hid ha
  invoked d hd := by
    rw [mem_append, mem_singleton] at hd
    rcases hd with hd | rfl
    · exact hl.invoked d hd
    · exact hinv
  completed id' r' hr := by
    obtain ⟨op', h'⟩ := hl.completed id' r' hr
    exact ⟨op', mem_append_left _ h'⟩
  order := by
    rw [pairwise_append]
    refine ⟨hl.order, pairwise_singleton _ _, fun a _ b hb hbefore => ?_⟩
    rw [mem_singleton] at hb
    subst hb
    obtain ⟨r', hr'⟩ := hbefore.res_mem
    exact hres r' hr'
  legal := by
    rw [foldlM_append, hl.legal]
    simp only [bind, Option.bind, foldlM_cons, happly]
    rfl

/-- An operation returns what it had when it took effect. -/
theorem Linearization.res (hmem : ⟨id, op, r⟩ ∈ l) : Linearization apply s₀ (h ++ [.res id r]) l s where
  nodup := hl.nodup
  invoked d hd := mem_append_left _ (hl.invoked d hd)
  completed id' r' hr := by
    rw [mem_append, mem_singleton] at hr
    rcases hr with hr | hr
    · exact hl.completed id' r' hr
    · cases hr
      exact ⟨op, hmem⟩
  order := by
    refine hl.order.imp fun {a b} hab hbefore => ?_
    rcases hbefore.of_append with hbefore | ⟨⟨op', he⟩, -⟩
    · exact hab hbefore
    · cases he
  legal := hl.legal

end

end

end Linearizable
