import Mathlib.Algebra.BigOperators.Intervals

/-!
# Calendar time

From 2000 on `uktimeconv_bmkclock_to_nsec` counts years in blocks of 400, 100 and 4. But the first century of a block
has one leap year more than the others, and the first four years of the others have none, so that it is a day behind
in these years.
-/

namespace Unikraft.Timeconv

open Finset

/-- The fields of a date; none is negative. -/
structure Bmkclock where
  year : Nat
  mon : Nat
  day : Nat
  hour : Nat
  min : Nat
  sec : Nat

def daysInMonth : Nat → Nat
  | 2 => 28
  | 4 | 6 | 9 | 11 => 30
  | 1 | 3 | 5 | 7 | 8 | 10 | 12 => 31
  | _ => 0

def uktimeconvIsLeapYear (year : Nat) : Bool :=
  if year % 4 ≠ 0 then false else if year % 100 ≠ 0 then true else decide (year % 400 = 0)

def uktimeconvDaysPerYear (year : Nat) : Nat := if uktimeconvIsLeapYear year then 366 else 365

/-- `n` rounds of a loop from `i` on that adds to `days`. -/
def addDays (f : Nat → Nat) : Nat → Nat → Nat → Nat
  | _, 0, days => days
  | i, n + 1, days => addDays f (i + 1) n (days + f i)

/-- The years before `year`, in days that are added to `days`. -/
def addYears (year days : Nat) : Nat :=
  if year < 2000 then addDays uktimeconvDaysPerYear 1970 (year - 1970) days
  else
    let z := year - 2000
    addDays uktimeconvDaysPerYear (year - z % 400 % 100 % 4) (z % 400 % 100 % 4)
      (days + (365 * 30 + 7) + z / 400 * (365 * 400 + 97) + z % 400 / 100 * (365 * 100 + 24) + z % 400 % 100 / 4 *
          (365 * 4 + 1))

def uktimeconvBmkclockToNsec (dt : Bmkclock) : Option Int :=
  if dt.year < 1970 then none
  else
    let days := addYears dt.year (if uktimeconvIsLeapYear dt.year = true ∧ 2 < dt.mon then 1 else 0)
    let days : Int := addDays daysInMonth 1 (dt.mon - 1) days + ((dt.day : Int) - 1)
    some ((((days * 24 + dt.hour) * 60 + dt.min) * 60 + dt.sec) * 10 ^ 9 % 2 ^ 64)

/-- The 4/100/400 rule. -/
def Leap (year : Nat) : Prop := 4 ∣ year ∧ (100 ∣ year → 400 ∣ year)

instance : DecidablePred Leap := fun _ => inferInstanceAs (Decidable (_ ∧ _))

def yearLength (year : Nat) : Nat := if Leap year then 366 else 365

def monthLength (year month : Nat) : Nat := if Leap year ∧ month = 2 then 29 else daysInMonth month

structure Bmkclock.Valid (dt : Bmkclock) : Prop where
  year : 1970 ≤ dt.year
  mon : 1 ≤ dt.mon ∧ dt.mon ≤ 12
  day : 1 ≤ dt.day ∧ dt.day ≤ monthLength dt.year dt.mon
  hour : dt.hour < 24
  min : dt.min < 60
  sec : dt.sec < 60

/-- The seconds from 1970-01-01 00:00:00 on. -/
def Bmkclock.seconds (dt : Bmkclock) : Nat :=
  (∑ y ∈ Ico 1970 dt.year, yearLength y + ∑ m ∈ Ico 1 dt.mon, monthLength dt.year m + (dt.day - 1)) * 86400 +
    dt.hour * 3600 + dt.min * 60 + dt.sec

/-- `uktimeconv_is_leap_year` agrees with the calendar. -/
theorem isLeapYear_iff (year : Nat) : uktimeconvIsLeapYear year = true ↔ Leap year := by
  unfold uktimeconvIsLeapYear Leap
  split_ifs <;> simp <;> omega

private theorem daysPerYear_eq : uktimeconvDaysPerYear = yearLength := by
  funext year
  simp only [uktimeconvDaysPerYear, yearLength, isLeapYear_iff]

private theorem addDays_eq (f : Nat → Nat) (i n days : Nat) : addDays f i n days = days + ∑ y ∈ Ico i (i + n),
    f y := by
  induction n generalizing i days with
  | zero => simp [addDays]
  | succ n ih =>
    rw [addDays, ih, sum_eq_sum_Ico_succ_bot (by omega : i < i + (n + 1)), Nat.add_assoc,
        show i + 1 + n = i + (n + 1) by omega]

/-- There are `(n + 3) / 4 - (n + 99) / 100 + (n + 399) / 400` leap years before `n`. -/
private theorem sum_yearLength (n : Nat) :
    ∑ y ∈ Ico 0 n, yearLength y + (n + 99) / 100 = 365 * n + (n + 3) / 4 + (n + 399) / 400 := by
  induction n with
  | zero => rfl
  | succ n ih =>
    rw [sum_Ico_succ_top (Nat.zero_le n)]
    generalize ∑ y ∈ Ico 0 n, yearLength y = total at ih ⊢
    unfold yearLength
    by_cases hl : Leap n
    · rw [if_pos hl]
      unfold Leap at hl
      omega
    · rw [if_neg hl]
      unfold Leap at hl
      omega

/-- The years in which the blocks have a leap day more than was counted. -/
def Late (year : Nat) : Prop := 2000 ≤ year ∧ 100 ≤ year % 400 ∧ year % 100 < 4

instance : DecidablePred Late := fun _ => inferInstanceAs (Decidable (_ ∧ _))

/-- `Late` in terms of the position in a cycle of 400 years. -/
theorem late_iff {a b c r : Nat} (hb : b < 4) (hc : c < 25) (hr : r < 4) :
    Late (2000 + 400 * a + 100 * b + 4 * c + r) ↔ 0 < b ∧ c = 0 := by
  unfold Late
  omega

private theorem sum_blocks {a b c : Nat} (hb : b < 4) (hc : c < 25) : ∑ y ∈ Ico 0 (2000 + 400 * a + 100 * b + 4 * c),
    yearLength y =
      730485 + a * 146097 + b * 36524 + c * 1461 + if 0 < b ∧ c = 0 then 1 else 0 := by
  have hsum := sum_yearLength (2000 + 400 * a + 100 * b + 4 * c)
  generalize ∑ y ∈ Ico 0 _, yearLength y = total at hsum ⊢
  split_ifs <;> omega

private theorem addYears_eq {year : Nat} (h : 1970 ≤ year) (days : Nat) :
    addYears year days + (if Late year then 1 else 0) = days + ∑ y ∈ Ico 1970 year, yearLength y := by
  unfold addYears
  by_cases hlt : year < 2000
  · have hlate : ¬Late year := fun hlate => absurd hlate.1 (by omega)
    rw [if_pos hlt, if_neg hlate, addDays_eq, daysPerYear_eq, Nat.add_sub_cancel' h, Nat.add_zero]
  · obtain ⟨z, rfl⟩ := Nat.exists_eq_add_of_le (Nat.not_lt.1 hlt)
    obtain ⟨a, b, c, r, hb, hc, hr, rfl⟩ : ∃ a b c r, b < 4 ∧ c < 25 ∧ r < 4 ∧ z = 400 * a + 100 * b + 4 * c + r :=
      ⟨z / 400, z % 400 / 100, z % 100 / 4, z % 4, by omega, by omega, by omega, by omega⟩
    have hz : 2000 + (400 * a + 100 * b + 4 * c + r) - 2000 = 400 * a + 100 * b + 4 * c + r := by omega
    have h4 : (400 * a + 100 * b + 4 * c + r) % 400 % 100 % 4 = r := by omega
    have h3 : (400 * a + 100 * b + 4 * c + r) % 400 % 100 / 4 = c := by omega
    have h2 : (400 * a + 100 * b + 4 * c + r) % 400 / 100 = b := by omega
    have h1 : (400 * a + 100 * b + 4 * c + r) / 400 = a := by omega
    have hyear : 2000 + (400 * a + 100 * b + 4 * c + r) - r = 2000 + 400 * a + 100 * b + 4 * c := by omega
    have hall := sum_Ico_consecutive yearLength (Nat.zero_le 1970) h
    have hrest :=
      sum_Ico_consecutive yearLength (Nat.zero_le _) (Nat.le_add_right (2000 + 400 * a + 100 * b + 4 * c) r)
    have hblocks := sum_blocks (a := a) hb hc
    have hbase := sum_yearLength 1970
    simp only [if_neg hlt, hz, h1, h2, h3, h4, hyear, addDays_eq, daysPerYear_eq]
    simp only [← Nat.add_assoc] at hall ⊢
    simp only [late_iff hb hc hr]
    omega

private theorem addMonths_eq (year : Nat) {mon : Nat} (h : mon ≤ 12) :
    (if Leap year ∧ 2 < mon then 1 else 0) + ∑ m ∈ Ico 1 mon, daysInMonth m =
    ∑ m ∈ Ico 1 mon, monthLength year m := by
  have hleap : ∀ mon ≤ 12, (if 2 < mon then 1 else 0) + ∑ m ∈ Ico 1 mon, daysInMonth m =
      ∑ m ∈ Ico 1 mon, if m = 2 then 29 else daysInMonth m := by decide
  unfold monthLength
  by_cases hl : Leap year
  · simpa only [hl, true_and] using hleap mon h
  · simp only [hl, false_and, if_false, Nat.zero_add]

/-- The function is a day behind in some years. -/
private theorem toNsec_eq {dt : Bmkclock} (h : dt.Valid) : uktimeconvBmkclockToNsec dt =
    some (((dt.seconds : Int) - if Late dt.year then 86400 else 0) * 10 ^ 9 % 2 ^ 64) := by
  have hyears := addYears_eq h.year (if Leap dt.year ∧ 2 < dt.mon then 1 else 0)
  have hmonths := addMonths_eq dt.year h.mon.2
  have hday := h.day.1
  simp only [uktimeconvBmkclockToNsec, if_neg (Nat.not_lt.2 h.year), addDays_eq, Nat.add_sub_cancel' h.mon.1,
      isLeapYear_iff]
  generalize (if Leap dt.year ∧ 2 < dt.mon then 1 else 0) = leapDay at hyears hmonths ⊢
  unfold Bmkclock.seconds
  congr 3
  split_ifs at hyears ⊢ <;> omega

/-- The result is exact except in the first four years of a century that does not begin with a leap year. -/
theorem toNsec_exact_iff {dt : Bmkclock} (h : dt.Valid) (hlt : 10 ^ 9 * dt.seconds < 2 ^ 64) :
    uktimeconvBmkclockToNsec dt = some (10 ^ 9 * (dt.seconds : Int)) ↔ dt.year % 400 < 100 ∨ 4 ≤ dt.year % 100 := by
  have hlate : Late dt.year ↔ ¬(dt.year % 400 < 100 ∨ 4 ≤ dt.year % 100) := by
    have hyear := h.year
    unfold Late
    omega
  rw [toNsec_eq h, Option.some.injEq]
  split_ifs with hl
  · have hnot := hlate.1 hl
    simp only [hnot, iff_false]
    omega
  · have hcond := not_not.1 (mt hlate.2 hl)
    simp only [hcond, iff_true]
    omega

theorem toNsec_exact_leapDay : uktimeconvBmkclockToNsec ⟨2024, 2, 29, 12, 0, 0⟩ = some 1709208000000000000 := by
  have hsec : Bmkclock.seconds ⟨2024, 2, 29, 12, 0, 0⟩ = 1709208000 := by decide +kernel
  have hvalid : Bmkclock.Valid ⟨2024, 2, 29, 12, 0, 0⟩ :=
    ⟨by decide, by decide, by decide, by decide, by decide, by decide⟩
  have hexact := (toNsec_exact_iff hvalid (by rw [hsec]; decide)).2 (by decide)
  rwa [hsec] at hexact

/-- The first second of 2100 is nearly a day before the second that it follows. -/
theorem not_toNsec_exact : uktimeconvBmkclockToNsec ⟨2100, 1, 1, 0, 0, 0⟩ = some 4102358400000000000 ∧
    uktimeconvBmkclockToNsec ⟨2099, 12, 31, 23, 59, 59⟩ = some 4102444799000000000 ∧
      Bmkclock.seconds ⟨2100, 1, 1, 0, 0, 0⟩ = 4102444800 := by
  decide +kernel

end Unikraft.Timeconv
