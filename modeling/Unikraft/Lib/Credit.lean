import Mathlib.Algebra.Ring.Nat
import Mathlib.Data.List.Basic

/-!
# Credit-based flow control

A sender, and a receiver with a buffer of `cap` bytes, with counters that grow without bound. The receiver advertises
`consumed` in messages that arrive late but in order; `credits` are the values under way and `known` is the last one
the sender has. A sender that keeps `sent ≤ known + cap` never overruns the buffer (`Ok`), and can compute its window
modulo `2 ^ w` (`Ok.window`).
-/

namespace Credit

open BitVec List

structure Flow where
  sent : Nat
  known : Nat
  credits : List Nat
  arrived : Nat
  consumed : Nat

namespace Flow

def send (f : Flow) (n : Nat) : Flow := { f with sent := f.sent + n }
def arrive (f : Flow) (n : Nat) : Flow := { f with arrived := f.arrived + n }
def consume (f : Flow) (n : Nat) : Flow := { f with consumed := f.consumed + n }
def advertise (f : Flow) : Flow := { f with credits := f.credits ++ [f.consumed] }

structure Ok (cap : Nat) (f : Flow) : Prop where
  sorted : (f.known :: f.credits).Pairwise (· ≤ ·)
  credits_le : ∀ k ∈ f.known :: f.credits, k ≤ f.consumed
  consumed_le : f.consumed ≤ f.arrived
  arrived_le : f.arrived ≤ f.sent
  sent_le : f.sent ≤ f.known + cap

namespace Ok

variable {cap : Nat} {f : Flow}

section
variable (h : f.Ok cap) {n : Nat}
include h

theorem send (hn : f.sent + n ≤ f.known + cap) : (f.send n).Ok cap where
  sorted := h.sorted
  credits_le := h.credits_le
  consumed_le := h.consumed_le
  arrived_le := Nat.le_trans h.arrived_le (Nat.le_add_right _ _)
  sent_le := hn

theorem arrive (hn : f.arrived + n ≤ f.sent) : (f.arrive n).Ok cap where
  sorted := h.sorted
  credits_le := h.credits_le
  consumed_le := Nat.le_trans h.consumed_le (Nat.le_add_right _ _)
  arrived_le := hn
  sent_le := h.sent_le

theorem consume (hn : f.consumed + n ≤ f.arrived) : (f.consume n).Ok cap where
  sorted := h.sorted
  credits_le k hk := Nat.le_trans (h.credits_le k hk) (Nat.le_add_right _ _)
  consumed_le := hn
  arrived_le := h.arrived_le
  sent_le := h.sent_le

theorem advertise : f.advertise.Ok cap where
  sorted := by
    show ((f.known :: f.credits) ++ [f.consumed]).Pairwise (· ≤ ·)
    rw [pairwise_append]
    refine ⟨h.sorted, pairwise_singleton _ _, ?_⟩
    intro k hk c hc
    rw [mem_singleton.1 hc]
    exact h.credits_le k hk
  credits_le k hk := by
    have hk' : k ∈ (f.known :: f.credits) ++ [f.consumed] := hk
    rcases mem_append.1 hk' with hk' | hk'
    · exact h.credits_le k hk'
    · exact Nat.le_of_eq (mem_singleton.1 hk')
  consumed_le := h.consumed_le
  arrived_le := h.arrived_le
  sent_le := h.sent_le

theorem learn {k : Nat} {l : List Nat} (hl : f.credits = k :: l) :
    ({ f with known := k, credits := l } : Flow).Ok cap where
  sorted := by
    have := h.sorted
    rw [hl] at this
    exact (pairwise_cons.1 this).2
  credits_le c hc := h.credits_le c (by rw [hl]; exact mem_cons_of_mem _ hc)
  consumed_le := h.consumed_le
  arrived_le := h.arrived_le
  sent_le := by
    have hk : f.known ≤ k := (pairwise_cons.1 h.sorted).1 k (by rw [hl]; exact mem_cons_self)
    have := h.sent_le
    simp only
    omega

/-- The receiver has room for everything that is under way. -/
theorem fits : f.sent ≤ f.consumed + cap := by
  have := h.credits_le f.known mem_cons_self
  have := h.sent_le
  omega

end

private theorem sub_ofNat {w a b : Nat} (hba : b ≤ a) (hlt : a - b < 2 ^ w) :
    (BitVec.ofNat w a - BitVec.ofNat w b).toNat = a - b := by
  obtain ⟨d, rfl⟩ := Nat.exists_eq_add_of_le hba
  rw [Nat.add_sub_cancel_left] at hlt ⊢
  have e : BitVec.ofNat w (b + d) - BitVec.ofNat w b = BitVec.ofNat w d := by
    rw [BitVec.ofNat_add, BitVec.add_comm, BitVec.add_sub_cancel]
  rw [e, toNat_ofNat, Nat.mod_eq_of_lt hlt]

/-- The window that is computed modulo `2 ^ w` is the true one. -/
theorem window {w : Nat} (h : f.Ok cap) (hcap : cap < 2 ^ w) :
    (BitVec.ofNat w cap - (BitVec.ofNat w f.sent - BitVec.ofNat w f.known)).toNat = f.known + cap - f.sent := by
  have hk := h.credits_le f.known mem_cons_self
  have hc := h.consumed_le
  have ha := h.arrived_le
  have hs := h.sent_le
  have hd : (BitVec.ofNat w f.sent - BitVec.ofNat w f.known).toNat = f.sent - f.known :=
    sub_ofNat (by omega) (by omega)
  have hn : (BitVec.ofNat w cap).toNat = cap := by rw [toNat_ofNat, Nat.mod_eq_of_lt hcap]
  rw [toNat_sub_of_le (by rw [le_def]; omega)]
  omega

end Ok

end Flow

end Credit
