import Mathlib.Algebra.Order.BigOperators.Group.LocallyFinite
import Mathlib.Algebra.Order.BigOperators.Group.Finset
import Mathlib.Algebra.Order.Ring.Int
import Mathlib.Data.Prod.Lex
import Mathlib.Order.Interval.Finset.Nat

/-! # The proleptic Gregorian calendar

A date is a year (before the year 1 the zero and the negative numbers), a month and a day.
`dayCount` counts the days from 1 January 1970 to a date: the lengths of the years between, the
lengths of the months before it, and the days of the month before it.

* `dayCount_tomorrow`: the next date is one day later.
* `dayCount_lt_iff`: the later of two dates is the lexicographically larger one. -/

namespace Ipmitool.Lib.Gregorian

/-! ### Years and months -/

/-- A leap year. -/
def IsLeap (year : ℤ) : Prop := 4 ∣ year ∧ (100 ∣ year → 400 ∣ year)

instance (year : ℤ) : Decidable (IsLeap year) := by unfold IsLeap; infer_instance

def yearLength (year : ℤ) : ℤ := if IsLeap year then 366 else 365

/-- The days of a month, January being the month 1. -/
def monthLength (year : ℤ) : ℕ → ℕ
  | 2 => if IsLeap year then 29 else 28
  | 4 | 6 | 9 | 11 => 30
  | _ => 31

theorem monthLength_pos (year : ℤ) (month : ℕ) :
    28 ≤ monthLength year month ∧ monthLength year month ≤ 31 := by
  unfold monthLength
  split <;> try split_ifs
  all_goals omega

/-- The days of the months before a month. -/
def monthsBefore (year : ℤ) (month : ℕ) : ℕ := ∑ k ∈ Finset.Ico 1 month, monthLength year k

/-- The days from 1 January 1970 to 1 January of a year. -/
def yearsBefore (year : ℤ) : ℤ :=
  ∑ k ∈ Finset.range (year - 1970).toNat, yearLength (1970 + k) -
    ∑ k ∈ Finset.range (1970 - year).toNat, yearLength (1969 - k)

theorem monthsBefore_succ (year : ℤ) {month : ℕ} (h : 1 ≤ month) :
    monthsBefore year (month + 1) = monthsBefore year month + monthLength year month :=
  (Finset.sum_Ico_add_eq_sum_Ico_add_one h _).symm

theorem monthsBefore_mono (year : ℤ) {a b : ℕ} (h : a ≤ b) :
    monthsBefore year a ≤ monthsBefore year b :=
  Finset.sum_le_sum_of_subset (Finset.Ico_subset_Ico_right h)

theorem yearsBefore_succ (year : ℤ) : yearsBefore (year + 1) =
    yearsBefore year + yearLength year := by
  unfold yearsBefore
  by_cases h : 1970 ≤ year
  · have hlast : (1970 : ℤ) + (year - 1970).toNat = year := by omega
    rw [show (year + 1 - 1970).toNat = (year - 1970).toNat + 1 by omega,
      Finset.sum_range_succ, hlast,
      show (1970 - year).toNat = 0 by omega, show (1970 - (year + 1)).toNat = 0 by omega]
    omega
  · have hlast : (1969 : ℤ) - (1970 - (year + 1)).toNat = year := by omega
    rw [show (1970 - year).toNat = (1970 - (year + 1)).toNat + 1 by omega,
      Finset.sum_range_succ, hlast,
      show (year - 1970).toNat = 0 by omega, show (year + 1 - 1970).toNat = 0 by omega]
    omega

theorem monthsBefore_year (year : ℤ) : (monthsBefore year 13 : ℤ) = yearLength year := by
  have h1 : monthsBefore year 1 = 0 := by simp [monthsBefore]
  simp only [monthsBefore_succ year (by omega : 1 ≤ 12), monthsBefore_succ year (by omega : 1 ≤ 11),
    monthsBefore_succ year (by omega : 1 ≤ 10), monthsBefore_succ year (by omega : 1 ≤ 9),
    monthsBefore_succ year (by omega : 1 ≤ 8), monthsBefore_succ year (by omega : 1 ≤ 7),
    monthsBefore_succ year (by omega : 1 ≤ 6), monthsBefore_succ year (by omega : 1 ≤ 5),
    monthsBefore_succ year (by omega : 1 ≤ 4), monthsBefore_succ year (by omega : 1 ≤ 3),
    monthsBefore_succ year (by omega : 1 ≤ 2), monthsBefore_succ year (Nat.le_refl 1), h1,
    monthLength, yearLength]
  split_ifs <;> rfl

/-- A function that grows by the length of the year is the count of the years. -/
theorem yearsBefore_unique {f : ℤ → ℤ} (h0 : f 1970 = 0)
    (hstep : ∀ year, f (year + 1) = f year + yearLength year) (year : ℤ) :
    f year = yearsBefore year := by
  induction year using Int.inductionOn' (b := 1970) with
  | zero =>
    rw [h0]
    simp [yearsBefore]
  | succ k _ ih => rw [hstep, yearsBefore_succ, ih]
  | pred k _ ih =>
    have h1 := hstep (k - 1)
    have h2 := yearsBefore_succ (k - 1)
    rw [Int.sub_add_cancel] at h1 h2
    omega

theorem yearsBefore_mono {a b : ℤ} (h : a ≤ b) : yearsBefore a ≤ yearsBefore b := by
  induction b, h using Int.leInduction with
  | base => exact Int.le_refl _
  | succ k _ ih =>
    rw [yearsBefore_succ, yearLength]
    split_ifs <;> omega

/-! ### Dates -/

structure Date where
  year : ℤ
  month : ℕ
  day : ℕ
  deriving DecidableEq

namespace Date

/-- The months are 1 to 12 and the days are those of the month. -/
structure Valid (d : Date) : Prop where
  month_pos : 1 ≤ d.month
  month_le : d.month ≤ 12
  day_pos : 1 ≤ d.day
  day_le : d.day ≤ monthLength d.year d.month

/-- The days of the year before a date. -/
def dayOfYear (d : Date) : ℕ := monthsBefore d.year d.month + (d.day - 1)

/-- The days from 1 January 1970 to a date. -/
def dayCount (d : Date) : ℤ := yearsBefore d.year + d.dayOfYear

/-- The next date. -/
def tomorrow (d : Date) : Date :=
  if d.day < monthLength d.year d.month then ⟨d.year, d.month, d.day + 1⟩
  else if d.month < 12 then ⟨d.year, d.month + 1, 1⟩
  else ⟨d.year + 1, 1, 1⟩

variable {a b d : Date}

theorem Valid.dayOfYear_lt (h : d.Valid) : (d.dayOfYear : ℤ) < yearLength d.year := by
  have hstep := monthsBefore_succ d.year h.month_pos
  have hle := monthsBefore_mono d.year (by have := h.month_le; omega : d.month + 1 ≤ 13)
  have hyear := monthsBefore_year d.year
  have hday := h.day_le
  have hpos := h.day_pos
  unfold dayOfYear
  omega

theorem Valid.tomorrow (h : d.Valid) : d.tomorrow.Valid := by
  have := h.month_pos
  have := h.month_le
  unfold Date.tomorrow
  split_ifs with hday hmonth
  · exact ⟨h.month_pos, h.month_le, by dsimp only; omega, hday⟩
  · have := (monthLength_pos d.year (d.month + 1)).1
    exact ⟨by dsimp only; omega, hmonth, Nat.le_refl 1, by dsimp only; omega⟩
  · have := (monthLength_pos (d.year + 1) 1).1
    exact ⟨Nat.le_refl 1, by dsimp only; omega, Nat.le_refl 1, by dsimp only; omega⟩

/-- **The next date is one day later.** -/
theorem dayCount_tomorrow (h : d.Valid) : d.tomorrow.dayCount = d.dayCount + 1 := by
  have := h.month_le
  have hpos := h.day_pos
  have hle := h.day_le
  have hstep := monthsBefore_succ d.year h.month_pos
  unfold Date.tomorrow dayCount dayOfYear
  split_ifs with hday hmonth
  · dsimp only
    omega
  · dsimp only
    omega
  · have hlast : d.month = 12 := by omega
    have hyear := monthsBefore_year d.year
    have hfirst : monthsBefore (d.year + 1) 1 = 0 := by simp [monthsBefore]
    have hsucc := yearsBefore_succ d.year
    have hnext : monthsBefore d.year 13 = monthsBefore d.year 12 + monthLength d.year 12 :=
      monthsBefore_succ d.year (by omega)
    rw [hlast] at hday hle ⊢
    dsimp only
    omega

/-- The dates by year, month and day. -/
def Before (a b : Date) : Prop :=
  toLex (a.year, toLex (a.month, a.day)) < toLex (b.year, toLex (b.month, b.day))

theorem before_iff : a.Before b ↔
    a.year < b.year ∨ a.year = b.year ∧
    (a.month < b.month ∨ a.month = b.month ∧ a.day < b.day) := by
  unfold Before
  rw [Prod.Lex.toLex_lt_toLex, Prod.Lex.toLex_lt_toLex]

theorem dayCount_lt (ha : a.Valid) (hb : 1 ≤ b.day) (h : a.Before b) : a.dayCount < b.dayCount := by
  have hapos := ha.day_pos
  have hale := ha.day_le
  rcases before_iff.mp h with hyear | ⟨hyear, hmonth | ⟨hmonth, hday⟩⟩
  · have hlt := ha.dayOfYear_lt
    have hnext := yearsBefore_succ a.year
    have hmono := yearsBefore_mono (show a.year + 1 ≤ b.year from hyear)
    unfold dayCount
    omega
  · have hnext := monthsBefore_succ a.year ha.month_pos
    have hmono := monthsBefore_mono a.year (show a.month + 1 ≤ b.month from hmonth)
    unfold dayCount dayOfYear
    rw [← hyear]
    omega
  · unfold dayCount dayOfYear
    rw [← hyear, ← hmonth]
    omega

/-- **The later of two dates** is the larger one. -/
theorem dayCount_lt_iff (ha : a.Valid) (hb : b.Valid) : a.dayCount < b.dayCount ↔ a.Before b := by
  refine ⟨fun hlt => ?_, dayCount_lt ha hb.day_pos⟩
  by_contra hnot
  by_cases heq : a = b
  · rw [heq] at hlt
    omega
  · have hback : b.Before a := by
      rw [before_iff] at hnot ⊢
      obtain ⟨ya, ma, da⟩ := a
      obtain ⟨yb, mb, db⟩ := b
      simp only [Date.mk.injEq] at heq hnot ⊢
      omega
    have := dayCount_lt hb ha.day_pos hback
    omega

theorem dayCount_inj (ha : a.Valid) (hb : b.Valid) (h : a.dayCount = b.dayCount) : a = b := by
  have h1 : ¬ a.Before b := fun hlt => by have := dayCount_lt ha hb.day_pos hlt; omega
  have h2 : ¬ b.Before a := fun hlt => by have := dayCount_lt hb ha.day_pos hlt; omega
  rw [before_iff] at h1 h2
  obtain ⟨ya, ma, da⟩ := a
  obtain ⟨yb, mb, db⟩ := b
  simp only [Date.mk.injEq] at h1 h2 ⊢
  omega

end Date

end Ipmitool.Lib.Gregorian
