import Ipmitool.Core.Types
import Ipmitool.Lib.Gregorian
import Mathlib.Tactic.IntervalCases

/-! # Dates and epochs

`util/time_calendar.zig` without the formatting: dates with a time of day, and seconds since 1
January
1970. A day has 86400 seconds. Numbers of 64 and 128 bits are integers; a conversion that could fail
is checked. The calculations with 128 bits are exact for every year of 64 bits. -/

namespace Ipmitool.Util.Calendar

open Ipmitool.Core.Types Ipmitool.Lib.Gregorian

/-! ### The code -/

inductive Error where
  | invalidDate
  | epochOutOfRange
  | yearOutOfRange
  | invalidFormat
  | invalidZone
  | writeFailed
  | fault (f : Fault)
  deriving DecidableEq

def secondsPerDay : ℤ := 86400
def epochDay : ℤ := 719528
def daysPerEra : ℤ := 146097

/-- A conversion to a signed number of `bits` bits. -/
def toSigned (bits : ℕ) (v : ℤ) : Except Error ℤ :=
  if -2 ^ (bits - 1) ≤ v ∧ v < 2 ^ (bits - 1) then .ok v else .error (.fault .overflow)

/-- A conversion to an unsigned number of `bits` bits. -/
def toUnsigned (bits : ℕ) (v : ℤ) : Except Error ℕ :=
  if 0 ≤ v ∧ v < 2 ^ bits then .ok v.toNat else .error (.fault .overflow)

structure Civil where
  year : ℤ
  month : ℕ
  day : ℕ
  hour : ℕ := 0
  minute : ℕ := 0
  second : ℕ := 0
  deriving DecidableEq

def isLeapYear (year : ℤ) : Bool := year % 4 = 0 ∧ (year % 100 ≠ 0 ∨ year % 400 = 0)

def lengths : List ℕ := [31, 28, 31, 30, 31, 30, 31, 31, 30, 31, 30, 31]

/-- `daysInMonth`. Where the month is not known to be one, the index is checked by the caller. -/
def daysInMonth (year : ℤ) (month : ℕ) : ℕ :=
  if month = 2 ∧ isLeapYear year then 29 else lengths.getD (month - 1) 0

def daysBeforeYear (year : ℤ) : ℤ :=
  365 * year + (year + 3) / 4 - (year + 99) / 100 + (year + 399) / 400

namespace Civil

def validate (self : Civil) : Except Error Unit :=
  if self.month < 1 ∨ 12 < self.month ∨ self.day < 1 ∨ daysInMonth self.year self.month < self.day ∨
      23 < self.hour ∨ 59 < self.minute ∨ 59 < self.second then .error .invalidDate
  else .ok ()

def dayOfYear (self : Civil) : Except Error ℕ := do
  self.validate
  return (List.range' 1 (self.month - 1)).foldl (fun days month =>
    days + daysInMonth self.year month)
    (self.day - 1)

/-- `weekday`, Sunday being 0. -/
def weekday (self : Civil) : Except Error ℕ := do
  let days := daysBeforeYear self.year + (← self.dayOfYear) - epochDay
  toUnsigned 3 ((days + 4) % 7)

def tmYear (self : Civil) : Except Error ℤ :=
  let year := self.year - 1900
  if year < -2 ^ 31 ∨ 2 ^ 31 - 1 < year then .error .yearOutOfRange else .ok year

end Civil

theorem searchYear_upper {low high : ℤ} (h : low + 1 < high) :
    (high - (low + high) / 2).toNat < (high - low).toNat := by omega

theorem searchYear_lower {low high : ℤ} (h : low + 1 < high) :
    ((low + high) / 2 - low).toNat < (high - low).toNat := by omega

/-- The loop of `fromEpoch` that looks for the year in the era. -/
def searchYear (days eraYear low high : ℤ) : Except Error ℤ :=
  if _h : low + 1 < high then do
    let middle := (low + high) / 2
    let year ← toSigned 64 (eraYear + middle)
    if daysBeforeYear year ≤ days then searchYear days eraYear middle high
    else searchYear days eraYear low middle
  else .ok low
termination_by (high - low).toNat
decreasing_by
  · exact searchYear_upper _h
  · exact searchYear_lower _h

theorem searchMonth_next {month : ℕ} (h : ¬ 12 < month) : 13 - (month + 1) < 13 - month := by omega

/-- The loop of `fromEpoch` over the months. -/
def searchMonth (year : ℤ) (month remainder : ℕ) : Except Error (ℕ × ℕ) :=
  if _h : 12 < month then .error (.fault .outOfBounds)
  else if daysInMonth year month ≤ remainder then
    searchMonth year (month + 1) (remainder - daysInMonth year month)
  else .ok (month, remainder)
termination_by 13 - month
decreasing_by exact searchMonth_next _h

def fromEpoch (seconds : ℤ) : Except Error Civil := do
  let days ← toSigned 64 (seconds / secondsPerDay + epochDay)
  let eraYear ← toSigned 64 (days / daysPerEra * 400)
  let low ← searchYear days eraYear 0 400
  let year ← toSigned 64 (eraYear + low)
  let remainder ← toUnsigned 16 (days - daysBeforeYear year)
  let (month, remainder) ← searchMonth year 1 remainder
  let clock ← toUnsigned 32 (seconds % secondsPerDay)
  let day ← toUnsigned 8 (remainder + 1)
  let hour ← toUnsigned 8 (clock / 3600)
  let minute ← toUnsigned 8 (clock / 60 % 60)
  let second ← toUnsigned 8 (clock % 60)
  return { year := year, month := month, day := day, hour := hour, minute := minute, second := second }

def toEpoch (date : Civil) : Except Error ℤ := do
  let days := daysBeforeYear date.year + (← date.dayOfYear) - epochDay
  let seconds := days * secondsPerDay + date.hour * 3600 + date.minute * 60 + date.second
  if seconds < -2 ^ 63 ∨ 2 ^ 63 - 1 < seconds then .error .epochOutOfRange else .ok seconds

/-! ### Dates with a time of day -/

/-- A number of 64 bits. -/
def FitsI64 (s : ℤ) : Prop := -2 ^ 63 ≤ s ∧ s < 2 ^ 63

instance (s : ℤ) : Decidable (FitsI64 s) := by unfold FitsI64; infer_instance

namespace Civil

def date (d : Civil) : Date := ⟨d.year, d.month, d.day⟩

structure Valid (d : Civil) : Prop where
  date : d.date.Valid
  hour_le : d.hour ≤ 23
  minute_le : d.minute ≤ 59
  second_le : d.second ≤ 59

/-- The seconds from the start of 1 January 1970 in the proleptic Gregorian calendar. -/
def count (d : Civil) : ℤ := d.date.dayCount * 86400 + d.hour * 3600 + d.minute * 60 + d.second

/-- The order by year, month, day, hour, minute and second. -/
def Before (a b : Civil) : Prop :=
  toLex (a.year, toLex (a.month, toLex (a.day, toLex (a.hour, toLex (a.minute, a.second))))) <
    toLex (b.year, toLex (b.month, toLex (b.day, toLex (b.hour, toLex (b.minute, b.second)))))

/-- The same time of the next day. -/
def nextDay (d : Civil) : Civil :=
  { d with year := d.date.tomorrow.year, month := d.date.tomorrow.month, day := d.date.tomorrow.day }

end Civil

/-! ### The calendar of the code -/

theorem isLeapYear_iff (year : ℤ) : isLeapYear year = true ↔ IsLeap year := by
  unfold isLeapYear IsLeap
  rw [decide_eq_true_iff]
  omega

theorem daysInMonth_eq (year : ℤ) {month : ℕ} (h1 : 1 ≤ month) (h2 : month ≤ 12) :
    daysInMonth year month = monthLength year month := by
  unfold daysInMonth
  simp only [isLeapYear_iff]
  by_cases h : IsLeap year <;> interval_cases month <;> simp [monthLength, lengths, h]

theorem daysBeforeYear_eq (year : ℤ) : daysBeforeYear year - epochDay = yearsBefore year := by
  refine yearsBefore_unique (f := fun y => daysBeforeYear y - epochDay) (by decide)
    (fun y => ?_) year
  unfold daysBeforeYear yearLength IsLeap epochDay
  split_ifs <;> omega

namespace Civil
variable {d : Civil}

theorem validate_ok (h : d.Valid) : d.validate = .ok () := by
  have hm := daysInMonth_eq d.year h.date.month_pos h.date.month_le
  have h1 := h.date.month_pos
  have h2 := h.date.month_le
  have h3 := h.date.day_pos
  have h4 := h.date.day_le
  have h5 := h.hour_le
  have h6 := h.minute_le
  have h7 := h.second_le
  simp only [date] at h1 h2 h3 h4 hm
  unfold validate
  rw [if_neg]
  omega

theorem validate_invalid (h : ¬ d.Valid) : d.validate = .error .invalidDate := by
  unfold validate
  rw [if_pos]
  by_contra hall
  have hm := daysInMonth_eq d.year (by omega : 1 ≤ d.month) (by omega)
  have hday : d.day ≤ monthLength d.year d.month := by omega
  exact h ⟨⟨by change 1 ≤ d.month; omega, by change d.month ≤ 12; omega, by
    change 1 ≤ d.day; omega, hday⟩,
    by omega, by omega, by omega⟩

theorem dayOfYear_ok (h : d.Valid) : d.dayOfYear = .ok d.date.dayOfYear := by
  have hfold : ∀ (n : ℕ), n + 1 ≤ 12 → ∀ days : ℕ,
      (List.range' 1 n).foldl (fun days month => days + daysInMonth d.year month) days =
        days + monthsBefore d.year (n + 1) := by
    intro n
    induction n with
    | zero => simp [monthsBefore]
    | succ n ih =>
      intro hn days
      have hstep := monthsBefore_succ d.year (by omega : 1 ≤ n + 1)
      rw [List.range'_concat, List.foldl_append, ih (by omega)]
      simp only [List.foldl_cons, List.foldl_nil, Nat.one_mul]
      rw [Nat.add_comm 1 n, daysInMonth_eq d.year (by omega) (by omega)]
      omega
  have h1 := h.date.month_pos
  have h2 := h.date.month_le
  simp only [date] at h1 h2
  unfold dayOfYear
  rw [validate_ok h]
  change Except.ok _ = Except.ok _
  rw [hfold _ (by omega), Nat.sub_add_cancel h1, Nat.add_comm]
  rfl

theorem days_eq (d : Civil) : daysBeforeYear d.year + (d.date.dayOfYear : ℤ) - epochDay =
    d.date.dayCount := by
  have := daysBeforeYear_eq d.year
  unfold Date.dayCount
  simp only [date]
  omega

theorem weekday_ok (h : d.Valid) : d.weekday = .ok ((d.date.dayCount + 4) % 7).toNat := by
  unfold weekday
  rw [dayOfYear_ok h]
  change toUnsigned 3 ((daysBeforeYear d.year + (d.date.dayOfYear : ℤ) - epochDay + 4) % 7) = _
  rw [days_eq d, toUnsigned, if_pos (by omega)]

end Civil

theorem toEpoch_invalid {d : Civil} (h : ¬ d.Valid) : toEpoch d = .error .invalidDate := by
  unfold toEpoch Civil.dayOfYear
  rw [Civil.validate_invalid h]
  rfl

theorem toEpoch_valid {d : Civil} (h : d.Valid) :
    toEpoch d = if FitsI64 d.count then .ok d.count else .error .epochOutOfRange := by
  have hcount : (daysBeforeYear d.year + (d.date.dayOfYear : ℤ) - epochDay) * secondsPerDay +
      d.hour * 3600 +
      d.minute * 60 + d.second = d.count := by rw [Civil.days_eq d]; rfl
  unfold toEpoch
  rw [Civil.dayOfYear_ok h]
  change (if _ < _ ∨ _ < _ then _ else _) = _
  rw [hcount]
  by_cases hfit : FitsI64 d.count
  · rw [if_pos hfit, if_neg]
    unfold FitsI64 at hfit
    omega
  · rw [if_neg hfit, if_pos]
    unfold FitsI64 at hfit
    omega

theorem valid_of_toEpoch {d : Civil} {s : ℤ} (h : toEpoch d = .ok s) :
    d.Valid ∧ FitsI64 d.count ∧ d.count = s := by
  by_cases hd : d.Valid
  · rw [toEpoch_valid hd] at h
    split_ifs at h with hfit
    exact ⟨hd, hfit, Except.ok.inj h⟩
  · rw [toEpoch_invalid hd] at h
    cases h

/-! ### The date of an epoch -/

theorem ok_bind {α β : Type} (a : α) (f : α → Except Error β) : (Except.ok a >>= f) = f a := rfl

theorem toSigned_ok {v : ℤ} (h : FitsI64 v) : toSigned 64 v = .ok v := if_pos h

theorem toUnsigned_ok {bits : ℕ} {v : ℤ} (h0 : 0 ≤ v) (h : v < 2 ^ bits) :
    toUnsigned bits v = .ok v.toNat :=
  if_pos ⟨h0, h⟩

/-- **The search for the year.** The days lie between the start of the lower and that of the upper
year. -/
theorem searchYear_ok {days eraYear : ℤ} (hera : -2 ^ 62 ≤ eraYear ∧ eraYear < 2 ^ 62)
    {low high : ℤ}
    (h0 : 0 ≤ low) (hlt : low < high) (hhigh : high ≤ 400)
    (hlow : daysBeforeYear (eraYear + low) ≤ days) (hup : days < daysBeforeYear (eraYear + high)) :
    ∃ year, searchYear days eraYear low high = .ok year ∧
      0 ≤ year ∧ year < 400 ∧ daysBeforeYear (eraYear + year) ≤ days ∧
        days < daysBeforeYear (eraYear + year + 1) := by
  unfold searchYear
  by_cases hmore : low + 1 < high
  · have hfit : FitsI64 (eraYear + (low + high) / 2) := by
      unfold FitsI64
      omega
    rw [dif_pos hmore]
    dsimp only
    rw [toSigned_ok hfit, ok_bind]
    split_ifs with hmiddle
    · exact searchYear_ok hera (by omega) (by omega) hhigh hmiddle hup
    · exact searchYear_ok hera h0 (by omega) (by omega) hlow (by omega)
  · rw [dif_neg hmore]
    obtain rfl : high = low + 1 := by omega
    rw [← Int.add_assoc] at hup
    exact ⟨low, rfl, h0, by omega, hlow, hup⟩
termination_by (high - low).toNat

/-- **The search for the month.** -/
theorem searchMonth_ok (year : ℤ) (month remainder : ℕ) (hmonth : 1 ≤ month)
    (hlt : monthsBefore year month + remainder < monthsBefore year 13) : ∃ m r,
      searchMonth year month remainder = .ok (m, r) ∧ 1 ≤ m ∧ m ≤ 12 ∧ r < monthLength year m ∧
        monthsBefore year m + r = monthsBefore year month + remainder := by
  have hle : month ≤ 12 := by
    by_contra hgt
    have := monthsBefore_mono year (by omega : 13 ≤ month)
    omega
  unfold searchMonth
  rw [dif_neg (by omega), daysInMonth_eq year hmonth hle]
  split_ifs with hnext
  · have hstep := monthsBefore_succ year hmonth
    obtain ⟨m, r, hrun, h1, h2, hr, hsum⟩ := searchMonth_ok year (month + 1)
      (remainder - monthLength year month) (by omega) (by omega)
    exact ⟨m, r, hrun, h1, h2, hr, by omega⟩
  · exact ⟨month, remainder, rfl, hmonth, hle, by omega, rfl⟩
termination_by 13 - month

/-- The days lie in the year that is found. -/
theorem daysBeforeYear_era (era : ℤ) : daysBeforeYear (era * 400) = era * daysPerEra := by
  unfold daysBeforeYear daysPerEra
  omega

/-- A date with the days of the epoch and its time of day. -/
theorem fromEpoch_ok {s : ℤ} (hs : FitsI64 s) :
    ∃ d, fromEpoch s = .ok d ∧ d.Valid ∧ d.count = s := by
  obtain ⟨hs1, hs2⟩ := hs
  have hfitDays : FitsI64 (s / secondsPerDay + epochDay) := by
    unfold FitsI64 secondsPerDay epochDay
    omega
  have hdays : (s / secondsPerDay + epochDay - epochDay) * secondsPerDay + s % secondsPerDay =
      s := by
    unfold secondsPerDay epochDay
    omega
  unfold fromEpoch
  rw [toSigned_ok hfitDays, ok_bind]
  generalize s / secondsPerDay + epochDay = days at hfitDays hdays ⊢
  obtain ⟨hd1, hd2⟩ := hfitDays
  have hera : -2 ^ 62 ≤ days / daysPerEra * 400 ∧ days / daysPerEra * 400 < 2 ^ 62 := by
    unfold daysPerEra
    omega
  have hlow := daysBeforeYear_era (days / daysPerEra)
  have hhigh := daysBeforeYear_era (days / daysPerEra + 1)
  have hdiv : days / daysPerEra * daysPerEra ≤ days ∧
      days < (days / daysPerEra + 1) * daysPerEra := by
    unfold daysPerEra
    omega
  rw [Int.add_mul, Int.one_mul] at hhigh
  rw [toSigned_ok (by unfold FitsI64; omega), ok_bind]
  generalize days / daysPerEra * 400 = eraYear at hera hlow hhigh ⊢
  have hlow' : daysBeforeYear (eraYear + 0) ≤ days := by
    rw [Int.add_zero]
    omega
  obtain ⟨low, hsearch, h0, h400, hle, hlt⟩ :=
    searchYear_ok hera (Int.le_refl 0) (by omega) (Int.le_refl 400)
      hlow' (by omega)
  rw [hsearch, ok_bind, toSigned_ok (by unfold FitsI64; omega), ok_bind]
  generalize eraYear + low = year at hle hlt ⊢
  -- the days of the year
  have hbefore := daysBeforeYear_eq year
  have hnext := daysBeforeYear_eq (year + 1)
  rw [yearsBefore_succ] at hnext
  have hmonths := monthsBefore_year year
  have hyear : yearLength year ≤ 366 := by
    unfold yearLength
    split_ifs <;> omega
  rw [toUnsigned_ok (by omega) (by omega), ok_bind]
  obtain ⟨remainder, hremainder⟩ : ∃ r : ℕ, days - daysBeforeYear year = r :=
    ⟨(days - daysBeforeYear year).toNat, by omega⟩
  rw [hremainder, Int.toNat_natCast]
  have hfirst : monthsBefore year 1 = 0 := by simp [monthsBefore]
  obtain ⟨month, r, hmonth, h1, h12, hr, hsum⟩ := searchMonth_ok year 1 remainder (Nat.le_refl 1)
    (by omega)
  have hr31 := (monthLength_pos year month).2
  rw [hmonth, ok_bind]
  dsimp only
  -- the time of the day
  obtain ⟨clock, hclock⟩ : ∃ c : ℕ, s % secondsPerDay = c := ⟨(s % secondsPerDay).toNat, by
    unfold secondsPerDay
    omega⟩
  have hclock' : clock < 86400 := by
    unfold secondsPerDay at hclock
    omega
  rw [hclock] at hdays ⊢
  rw [toUnsigned_ok (by omega) (by omega), ok_bind, Int.toNat_natCast]
  rw [toUnsigned_ok (by omega) (by omega), ok_bind, toUnsigned_ok (by omega) (by omega), ok_bind,
    toUnsigned_ok (by omega) (by omega), ok_bind, toUnsigned_ok (by omega) (by omega), ok_bind]
  refine ⟨_, rfl, ⟨⟨h1, h12, ?_, ?_⟩, ?_, ?_, ?_⟩, ?_⟩
  · simp only [Civil.date]
    omega
  · simp only [Civil.date]
    omega
  · dsimp only
    omega
  · dsimp only
    omega
  · dsimp only
    omega
  · unfold Civil.count Civil.date Date.dayCount Date.dayOfYear
    unfold secondsPerDay at hdays
    dsimp only
    omega

namespace Civil
variable {a b d : Civil}

theorem Valid.clock (h : d.Valid) :
    0 ≤ d.hour * 3600 + d.minute * 60 + d.second ∧
    d.hour * 3600 + d.minute * 60 + d.second < 86400 := by
  have h1 := h.hour_le
  have h2 := h.minute_le
  have h3 := h.second_le
  omega

theorem count_inj (ha : a.Valid) (hb : b.Valid) (h : a.count = b.count) : a = b := by
  have hca := ha.clock
  have hcb := hb.clock
  unfold count at h
  have hdate := Date.dayCount_inj ha.date hb.date (by omega)
  rw [hdate] at h
  have h1 := ha.minute_le
  have h2 := hb.minute_le
  have h3 := ha.second_le
  have h4 := hb.second_le
  obtain ⟨y, m, d, hh, mm, ss⟩ := a
  obtain ⟨y', m', d', hh', mm', ss'⟩ := b
  simp only [date, Date.mk.injEq, mk.injEq] at *
  omega

theorem before_iff : a.Before b ↔ a.date.Before b.date ∨ a.date = b.date ∧
    (a.hour < b.hour ∨ a.hour = b.hour ∧
      (a.minute < b.minute ∨ a.minute = b.minute ∧ a.second < b.second)) := by
  unfold Before
  rw [Date.before_iff]
  simp only [Prod.Lex.toLex_lt_toLex, date, Date.mk.injEq]
  omega

/-- **The later of two times** is the larger one. -/
theorem count_lt_iff (ha : a.Valid) (hb : b.Valid) : a.count < b.count ↔ a.Before b := by
  have hca := ha.clock
  have hcb := hb.clock
  have h1 := ha.minute_le
  have h2 := hb.minute_le
  have h3 := ha.second_le
  have h4 := hb.second_le
  rw [before_iff, ← Date.dayCount_lt_iff ha.date hb.date]
  have heq : a.date = b.date ↔ a.date.dayCount = b.date.dayCount :=
    ⟨fun h => by rw [h], Date.dayCount_inj ha.date hb.date⟩
  rw [heq]
  unfold count
  omega

theorem Valid.nextDay (h : d.Valid) : d.nextDay.Valid :=
  ⟨h.date.tomorrow, h.hour_le, h.minute_le, h.second_le⟩

end Civil

/-- **The calendar.** Epochs and dates correspond to each other, in their order; a date has an epoch
if it is valid and its seconds fit into 64 bits, and the errors say which of the two fails; and each
day has the next day of the week. -/
theorem epoch_civil :
    (∀ s, FitsI64 s → ∃ d, fromEpoch s = .ok d ∧ d.Valid ∧ toEpoch d = .ok s) ∧
    (∀ d : Civil, d.Valid → FitsI64 d.count → ∃ s, toEpoch d = .ok s ∧ fromEpoch s = .ok d) ∧
    (∀ (a b : Civil) (s t : ℤ), toEpoch a = .ok s → toEpoch b = .ok t → (s < t ↔ a.Before b)) ∧
    (∀ d : Civil, toEpoch d = .error .invalidDate ↔ ¬ d.Valid) ∧
    (∀ d : Civil, toEpoch d = .error .epochOutOfRange ↔ d.Valid ∧ ¬ FitsI64 d.count) ∧
    (∀ d : Civil, d.Valid → ∃ w, d.weekday = .ok w ∧ d.nextDay.weekday = .ok ((w + 1) % 7)) := by
  refine ⟨fun s hs => ?_, fun d hd hfit => ?_, fun a b s t ha hb => ?_, fun d => ?_, fun d => ?_,
    fun d hd => ?_⟩
  · obtain ⟨d, hrun, hd, hcount⟩ := fromEpoch_ok hs
    refine ⟨d, hrun, hd, ?_⟩
    rw [toEpoch_valid hd, hcount, if_pos hs]
  · obtain ⟨d', hrun, hd', hcount⟩ := fromEpoch_ok hfit
    rw [Civil.count_inj hd' hd hcount] at hrun
    refine ⟨d.count, ?_, hrun⟩
    rw [toEpoch_valid hd, if_pos hfit]
  · obtain ⟨hva, -, rfl⟩ := valid_of_toEpoch ha
    obtain ⟨hvb, -, rfl⟩ := valid_of_toEpoch hb
    exact Civil.count_lt_iff hva hvb
  · by_cases hd : d.Valid
    · rw [toEpoch_valid hd]
      split_ifs <;> simp [hd]
    · simp [toEpoch_invalid hd, hd]
  · by_cases hd : d.Valid
    · rw [toEpoch_valid hd]
      split_ifs with hfit <;> simp [hd, hfit]
    · simp [toEpoch_invalid hd, hd]
  · have hnext : d.nextDay.date.dayCount = d.date.dayCount + 1 := Date.dayCount_tomorrow hd.date
    refine ⟨_, Civil.weekday_ok hd, ?_⟩
    rw [Civil.weekday_ok hd.nextDay, hnext]
    congr 1
    omega

/-- The leap day of the year 2000, with its epoch and its day of the week. -/
theorem epoch_civil_leap : fromEpoch 951782400 = .ok ⟨2000, 2, 29, 0, 0, 0⟩ ∧
    (⟨2000, 2, 29, 0, 0, 0⟩ : Civil).weekday = .ok 2 ∧
    (⟨2000, 3, 1, 0, 0, 0⟩ : Civil).weekday = .ok 3 := by
  have hepoch : toEpoch ⟨2000, 2, 29, 0, 0, 0⟩ = .ok 951782400 := rfl
  have hfit := (valid_of_toEpoch hepoch).2.1
  have hvalid : (⟨2000, 2, 29, 0, 0, 0⟩ : Civil).Valid :=
    ⟨⟨by decide, by decide, by decide, by decide⟩, by decide, by decide, by decide⟩
  obtain ⟨s, hs, hback⟩ := epoch_civil.2.1 _ hvalid hfit
  obtain ⟨w, hw, hnext⟩ := epoch_civil.2.2.2.2.2 _ hvalid
  obtain rfl := Except.ok.inj (hepoch.symm.trans hs)
  obtain rfl :=
    Except.ok.inj ((rfl : (⟨2000, 2, 29, 0, 0, 0⟩ : Civil).weekday = .ok 2).symm.trans hw)
  exact ⟨hback, hw, hnext⟩

end Ipmitool.Util.Calendar
