import Unikraft.Lib.Runs

/-!
# Timer files

`_timerfd_update` adds the expirations since the last update to `val`, and a read takes `val`. A new setting leaves
those of the old one in `val`, and disarming keeps the interval, for which `uk_sys_timerfd_gettime` still finds a next
expiration.
-/

namespace Unikraft.Timerfd

/-- The times are in nanoseconds. -/
structure TimerfdNode where
  value : Nat := 0
  interval : Nat := 0
  val : Nat := 0
  total : Nat := 0
  /-- An assertion has failed. -/
  failed : Bool := false

/-- `exp` and `next`. -/
def timerfdValnext (value interval now : Nat) : Nat × Nat :=
  if value ≤ now then
    if interval = 0 then (1, 0)
    else
      let exp := 1 + (now - value) / interval
      (exp, exp * interval - (now - value))
  else (0, value - now)

section
variable (d : TimerfdNode)

def timerfdUpdate (now : Nat) : TimerfdNode :=
  if d.value = 0 then { d with val := 0 }
  else
    let exp := (timerfdValnext d.value d.interval now).1
    if exp < d.total then { d with failed := true } else { d with val := d.val + (exp - d.total), total := exp }

def timerfdSet (value interval : Nat) : TimerfdNode :=
  if value = 0 then { d with value := 0 } else { d with value := value, interval := interval, total := 0 }

/-- The setting as an absolute time, if the clock is at `t`. -/
def absset (abstime : Bool) (value t : Nat) : Nat := if value = 0 ∨ abstime = true then value else value + t

/-- The clock is read for a relative time, and then in `_timerfd_update`. -/
def timerfdSettime (abstime : Bool) (value interval t now : Nat) : TimerfdNode :=
  timerfdUpdate (timerfdSet d (absset abstime value t) interval) now

def timerfdGettime (now : Nat) : Nat := (timerfdValnext d.value d.interval now).2

/-- The value that is read, if it is not `-EAGAIN`. -/
def timerfdRead : TimerfdNode × Option Nat := ({ d with val := 0 }, if d.val = 0 then none else some d.val)

end

/-- The expirations up to the time `u` of a timer that is set to a value and an interval. -/
def expirations (set : Nat × Nat) (u : Nat) : Nat :=
  if set.1 = 0 ∨ u < set.1 then 0 else if set.2 = 0 then 1 else (u - set.1) / set.2 + 1

structure State where
  node : TimerfdNode := {}
  setting : Nat × Nat := (0, 0)
  updated : Nat := 0
  /-- The expirations of the setting up to the settime, or to the update before the last successful read after it. -/
  seen : Nat := 0

/-- A new setting is made when the clock is at `t`, which is read only for a relative time, and updated at `now`. -/
inductive Op
  | settime (abstime : Bool) (value interval t now : Nat)
  | gettime (now : Nat)
  | read
  | update (now : Nat)

def step (s : State) : Op → State
  | .settime abstime value interval t now =>
    { node := timerfdSettime s.node abstime value interval t now
      setting := (absset abstime value t, interval)
      updated := now
      seen := expirations (absset abstime value t, interval) t }
  | .gettime _ => s
  | .read =>
    { s with
      node := (timerfdRead s.node).1
      seen := if (timerfdRead s.node).2 = none then s.seen else expirations s.setting s.updated }
  | .update now => { s with node := timerfdUpdate s.node now, updated := now }

/-- A read returns the expirations since the settime and the last successful read, and the time to the next expiration
is that to the first time with more of them, if there is one. -/
def Exact (s : State) : Op → Prop
  | .read => (timerfdRead s.node).2 =
      if expirations s.setting s.updated ≤ s.seen then none else some (expirations s.setting s.updated - s.seen)
  | .gettime now =>
    (∀ u < now + timerfdGettime s.node now, expirations s.setting u ≤ expirations s.setting now) ∧
      (expirations s.setting now < expirations s.setting (now + timerfdGettime s.node now) ∨
        timerfdGettime s.node now = 0 ∧ ∀ u, expirations s.setting u ≤ expirations s.setting now)
  | _ => True

/-- The clock does not go back. When the timer is armed, nothing is left to read and its first expiration is still to
come, and it is not asked for the next expiration while it is disarmed with an interval. -/
def Safe (s : State) : Op → Prop
  | .settime abstime value _ t now => t ≤ now ∧ (value ≠ 0 → s.node.val = 0 ∧ t < absset abstime value t)
  | .gettime _ => s.node.value = 0 → s.node.interval = 0
  | .read => True
  | .update now => s.updated ≤ now

structure Inv (s : State) : Prop where
  failed : s.node.failed = false
  value : s.node.value = s.setting.1
  armed : s.setting.1 ≠ 0 → s.node.interval = s.setting.2 ∧ s.node.total = expirations s.setting s.updated
  val : s.node.val + s.seen = expirations s.setting s.updated

variable {s : State} {now v i : Nat}

private theorem expirations_zero (u : Nat) : expirations (0, i) u = 0 := if_pos (.inl rfl)

private theorem valnext_fst (hv : v ≠ 0) : (timerfdValnext v i now).1 = expirations (v, i) now := by
  simp only [timerfdValnext, expirations, hv, false_or]
  by_cases h : v ≤ now
  · rw [if_pos h, if_neg (Nat.not_lt.2 h)]
    split
    · rfl
    · exact Nat.add_comm ..
  · rw [if_neg h, if_pos (Nat.not_le.1 h)]

private theorem expirations_mono {u w : Nat} (h : u ≤ w) : expirations (v, i) u ≤ expirations (v, i) w := by
  have hdiv := Nat.div_le_div_right (c := i) (Nat.sub_le_sub_right h v)
  simp only [expirations]
  generalize (u - v) / i = x at hdiv ⊢
  generalize (w - v) / i = y at hdiv ⊢
  split_ifs <;> omega

/-- The time that `_timerfd_valnext` returns is the first with more expirations. -/
private theorem valnext_snd (hv : v ≠ 0) :
    (∀ u < now + (timerfdValnext v i now).2, expirations (v, i) u ≤ expirations (v, i) now) ∧
    (expirations (v, i) now < expirations (v, i) (now + (timerfdValnext v i now).2) ∨
      (timerfdValnext v i now).2 = 0 ∧ ∀ u, expirations (v, i) u ≤ expirations (v, i) now) := by
  simp only [timerfdValnext, expirations, hv, false_or]
  by_cases hle : v ≤ now
  · by_cases hi : i = 0
    · simp only [hle, hi, if_true, if_neg (Nat.not_lt.2 hle)]
      exact ⟨fun u _ => by split <;> omega, .inr ⟨trivial, fun u => by split <;> omega⟩⟩
    · have hlt := Nat.lt_mul_div_succ (now - v) (Nat.pos_of_ne_zero hi)
      rw [Nat.mul_comm, Nat.add_comm] at hlt
      simp only [hle, hi, if_true, if_false, if_neg (Nat.not_lt.2 hle)]
      refine ⟨fun u hu => ?_, .inl ?_⟩
      · split
        · exact Nat.zero_le _
        · refine Nat.succ_le_of_lt (Nat.add_comm .. ▸ (Nat.div_lt_of_lt_mul ?_ : (u - v) / i < 1 + (now - v) / i))
          rw [Nat.mul_comm]
          omega
      · rw [if_neg (by omega), show now + ((1 + (now - v) / i) * i - (now - v)) - v =
            (1 + (now - v) / i) * i by omega,
          Nat.mul_div_cancel _ (Nat.pos_of_ne_zero hi)]
        omega
  · have hnow : now + (v - now) = v := by omega
    simp only [hle, if_false, hnow, Nat.lt_irrefl, Nat.sub_self, Nat.zero_div, Nat.not_le.1 hle, if_true]
    exact ⟨fun u hu => by simp [hu], .inl (by split <;> omega)⟩

private theorem Inv.read (h : Inv s) : Exact s .read ∧ Inv (step s .read) := by
  have hval := h.val
  refine ⟨?_, h.failed, h.value, h.armed, ?_⟩
  · simp only [Exact, timerfdRead]
    split_ifs <;> first | rfl | omega | (congr 1; omega)
  · simp only [step, timerfdRead]
    split_ifs <;> simp_all

private theorem Inv.update (h : Inv s) (hnow : s.updated ≤ now) : Inv (step s (.update now)) := by
  obtain ⟨hfailed, hvalue, harmed, hval⟩ := h
  have hmono : expirations s.setting _ ≤ expirations s.setting _ := expirations_mono hnow
  simp only [step, timerfdUpdate, hvalue]
  by_cases hv : s.setting.1 = 0
  · have hzero (u : Nat) : expirations s.setting u = 0 := if_pos (.inl hv)
    rw [if_pos hv]
    refine ⟨hfailed, rfl, fun hne => absurd hv hne, ?_⟩
    rw [hzero] at hval ⊢
    dsimp only
    omega
  · obtain ⟨hi, htotal⟩ := harmed hv
    rw [if_neg hv, hi, valnext_fst hv, show (s.setting.1, s.setting.2) = s.setting from rfl, if_neg (by omega)]
    refine ⟨hfailed, rfl, fun _ => ⟨rfl, rfl⟩, ?_⟩
    dsimp only
    omega

private theorem expirations_before {t : Nat} (h : t < v) : expirations (v, i) t = 0 := if_pos (.inr h)

private theorem Inv.settime (h : Inv s) {abstime : Bool} {value interval t : Nat}
    (hval : value ≠ 0 → s.node.val = 0 ∧ t < absset abstime value t) :
    Inv (step s (.settime abstime value interval t now)) := by
  have hset : absset abstime value t = 0 ↔ value = 0 := by
    unfold absset
    split <;> omega
  have hval : absset abstime value t ≠ 0 → s.node.val = 0 ∧ t < absset abstime value t :=
    fun hne => hval (mt hset.2 hne)
  simp only [step, timerfdSettime, timerfdSet]
  generalize absset abstime value t = v at hval ⊢
  by_cases hv : v = 0
  · subst hv
    refine ⟨h.failed, rfl, fun hne => absurd rfl hne, ?_⟩
    rw [expirations_zero, expirations_zero]
    rfl
  · obtain ⟨hnone, hlater⟩ := hval hv
    simp only [hv, if_false, timerfdUpdate, valnext_fst hv, Nat.not_lt_zero]
    exact ⟨h.failed, rfl, fun _ => ⟨rfl, rfl⟩, by simp [hnone, expirations_before hlater]⟩

private theorem Inv.gettime (h : Inv s) (hi : s.node.value = 0 → s.node.interval = 0) : Exact s (.gettime now) := by
  simp only [Exact, timerfdGettime, h.value] at hi ⊢
  by_cases hv : s.setting.1 = 0
  · have hzero (u : Nat) : expirations s.setting u = 0 := if_pos (.inl hv)
    simp [hzero, hi hv, hv, timerfdValnext]
  · rw [(h.armed hv).1]
    exact valnext_snd hv

/-- No assertion fails, and every call does what is expected of it. -/
theorem timer_exact (ops : List Op) (h : Runs.Meets step Safe {} ops) :
    Runs.Meets step (fun s op => Exact s op ∧ (step s op).node.failed = false) {} ops := by
  have hstep : ∀ s op, Inv s → Safe s op → Exact s op ∧ Inv (step s op) := by
    intro s op h hsafe
    cases op with
    | settime => exact ⟨trivial, h.settime hsafe.2⟩
    | gettime => exact ⟨h.gettime hsafe, h⟩
    | read => exact h.read
    | update => exact ⟨trivial, h.update hsafe⟩
  have hinv := h.with_invariant (fun s op h hsafe => (hstep s op h hsafe).2) ⟨rfl, rfl, fun h => absurd rfl h, rfl⟩
  exact hinv.imp fun s op h => ⟨(hstep s op h.2 h.1).1, (hstep s op h.2 h.1).2.failed⟩

/-- A periodic timer is armed, expires twice, is read and disarmed. -/
theorem timer_exact_periodic : Runs.Meets step (fun s op => Exact s op ∧ (step s op).node.failed = false) {}
    [.settime false 5 10 100 100, .update 117, .read, .gettime 118, .settime false 0 0 120 120] :=
  timer_exact _ ⟨⟨by decide, fun _ => ⟨rfl, by decide⟩⟩, (by decide : 100 ≤ 117), trivial, nofun, ⟨by decide, nofun⟩,
      trivial⟩

/-- An expiration of an old setting is read after the new one. -/
theorem not_timer_exact :
    ¬Exact (Runs.run step {} [.settime false 5 0 10 10, .update 20, .settime false 100 0 20 20]) .read := by
  unfold Exact
  decide

end Unikraft.Timerfd
