import Mathlib.Algebra.Order.Ring.Int

/-!
The proleptic Gregorian calendar on day numbers, day 0 being 1970-01-01. A month is
numbered from March of year 0 on, so that the leap day ends a year of twelve months
and the first day of every month is one formula.
-/
namespace Civil

structure Date where
  year : ℤ
  month : ℤ
  day : ℤ
  deriving DecidableEq, Repr

def monthIndex (year month : ℤ) : ℤ := 12 * year + month - 3

/-- The days from 0000-03-01 to the first of March of a year. -/
def yearStart (y : ℤ) : ℤ := 365 * y + y / 4 - y / 100 + y / 400

def monthStart (k : ℤ) : ℤ := yearStart (k / 12) + (153 * (k % 12) + 2) / 5 - 719468

def toDays (year month day : ℤ) : ℤ := monthStart (monthIndex year month) + day - 1

/-- The year counted from March that holds a day counted from 0000-03-01: whole
    periods of 400 years, then of 100, 4 and 1, the last of each keeping the leap day. -/
def yearOf (z : ℤ) : ℤ :=
  let doe := z % 146097
  let century := min (doe / 36524) 3
  let doc := doe - 36524 * century
  let olympiad := doc / 1461
  let doq := doc % 1461
  400 * (z / 146097) + 100 * century + 4 * olympiad + min (doq / 365) 3

def monthOf (days : ℤ) : ℤ :=
  let y := yearOf (days + 719468)
  12 * y + (5 * (days + 719468 - yearStart y) + 2) / 153

def ofDays (days : ℤ) : Date :=
  let k := monthOf days
  ⟨(k + 2) / 12, (k + 2) % 12 + 1, days - monthStart k + 1⟩

/-- 0 is Sunday; 1970-01-01 was a Thursday. -/
def weekday (days : ℤ) : ℤ := (days + 4) % 7

theorem weekday_add (days n : ℤ) : weekday (days + n) = (weekday days + n) % 7 := by
  unfold weekday
  omega

theorem weekday_range (days : ℤ) : 0 ≤ weekday days ∧ weekday days ≤ 6 := by
  unfold weekday
  omega

theorem month_index_of (k : ℤ) : monthIndex ((k + 2) / 12) ((k + 2) % 12 + 1) = k := by
  unfold monthIndex
  omega

theorem year_start_parts {e c q a : ℤ} (century : 0 ≤ c ∧ c ≤ 3) (olympiad : 0 ≤ q ∧ q ≤ 24)
    (year : 0 ≤ a ∧ a ≤ 3) : yearStart (400 * e + 100 * c + 4 * q + a) =
      146097 * e + 36524 * c + 1461 * q + 365 * a := by
  have four : (400 * e + 100 * c + 4 * q + a) / 4 = 100 * e + 25 * c + q := by omega
  have hundred : (400 * e + 100 * c + 4 * q + a) / 100 = 4 * e + c := by omega
  have era : (400 * e + 100 * c + 4 * q + a) / 400 = e := by omega
  rw [yearStart, four, hundred, era]
  omega

/-- The year after one given by its parts: a part that is full carries over. -/
theorem next_year_parts {e c q a : ℤ} (century : 0 ≤ c ∧ c ≤ 3) (olympiad : 0 ≤ q ∧ q ≤ 24)
    (year : 0 ≤ a ∧ a ≤ 3) : yearStart (400 * e + 100 * c + 4 * q + a + 1) =
      146097 * e + 36524 * c + 1461 * q + 365 * a + 365 +
        (if a = 3 ∧ (q < 24 ∨ c = 3) then 1 else 0) := by
  have four : (400 * e + 100 * c + 4 * q + a + 1) / 4 =
      100 * e + 25 * c + q + if a = 3 then 1 else 0 := by
    split <;> omega
  have hundred : (400 * e + 100 * c + 4 * q + a + 1) / 100 =
      4 * e + c + if a = 3 ∧ q = 24 then 1 else 0 := by
    split <;> omega
  have era : (400 * e + 100 * c + 4 * q + a + 1) / 400 =
      e + if a = 3 ∧ q = 24 ∧ c = 3 then 1 else 0 := by
    split <;> omega
  rw [yearStart, four, hundred, era]
  split <;> split <;> split <;> split <;> omega

theorem year_length (y : ℤ) :
    yearStart y + 365 ≤ yearStart (y + 1) ∧ yearStart (y + 1) ≤ yearStart y + 366 := by
  have parts : y = 400 * (y / 400) + 100 * (y % 400 / 100) + 4 * (y % 100 / 4) + y % 4 := by
    omega
  have start := year_start_parts (e := y / 400) (c := y % 400 / 100) (q := y % 100 / 4)
    (a := y % 4) (by omega) (by omega) (by omega)
  have next := next_year_parts (e := y / 400) (c := y % 400 / 100) (q := y % 100 / 4)
    (a := y % 4) (by omega) (by omega) (by omega)
  rw [← parts] at start next
  rw [start, next]
  split <;> omega

theorem month_start_parts {y m : ℤ} (month : 0 ≤ m ∧ m ≤ 11) :
    monthStart (12 * y + m) = yearStart y + (153 * m + 2) / 5 - 719468 := by
  have quotient : (12 * y + m) / 12 = y := by omega
  have remainder : (12 * y + m) % 12 = m := by omega
  rw [monthStart, quotient, remainder]

theorem next_month_parts {y m : ℤ} (month : 0 ≤ m ∧ m ≤ 11) : monthStart (12 * y + m + 1) =
    (if m = 11 then yearStart (y + 1) else yearStart y + (153 * m + 155) / 5) - 719468 := by
  split
  · rename_i last
    have carried := month_start_parts (y := y + 1) (m := 0) (by omega)
    rw [show 12 * y + m + 1 = 12 * (y + 1) + 0 by omega, carried]
    omega
  · have next := month_start_parts (y := y) (m := m + 1) (by omega)
    rw [add_assoc, next]
    omega

theorem month_starts_apart (k : ℤ) : monthStart k + 28 ≤ monthStart (k + 1) := by
  have parts : k = 12 * (k / 12) + k % 12 := by omega
  have start := month_start_parts (y := k / 12) (m := k % 12) (by omega)
  have next := next_month_parts (y := k / 12) (m := k % 12) (by omega)
  rw [← parts] at start next
  have length := year_length (k / 12)
  rw [start, next]
  split <;> omega

theorem month_start_lt {j k : ℤ} (earlier : j < k) : monthStart j + 28 ≤ monthStart k := by
  obtain ⟨n, rfl⟩ : ∃ n : ℕ, k = j + 1 + n := ⟨(k - j - 1).toNat, by omega⟩
  clear earlier
  induction n with
  | zero => simpa using month_starts_apart j
  | succ n ih =>
    have apart := month_starts_apart (j + 1 + n)
    have same : j + 1 + ((n + 1 : ℕ) : ℤ) = j + 1 + n + 1 := by omega
    rw [same]
    omega

theorem month_start_le {j k : ℤ} (le : j ≤ k) : monthStart j ≤ monthStart k := by
  rcases eq_or_lt_of_le le with rfl | earlier
  · exact le_rfl
  · have apart := month_start_lt earlier
    omega

theorem year_of_bounds (z : ℤ) : yearStart (yearOf z) ≤ z ∧ z < yearStart (yearOf z + 1) := by
  simp only [yearOf]
  generalize century : min (z % 146097 / 36524) 3 = c
  generalize day : z % 146097 - 36524 * c = doc
  generalize year : min (doc % 1461 / 365) 3 = a
  have bounds : 0 ≤ c ∧ c ≤ 3 := by omega
  have olympiad : 0 ≤ doc / 1461 ∧ doc / 1461 ≤ 24 := by omega
  have inside : 0 ≤ a ∧ a ≤ 3 := by omega
  rw [year_start_parts bounds olympiad inside, next_year_parts bounds olympiad inside]
  constructor
  · omega
  · split <;> omega

theorem month_of_bounds (days : ℤ) :
    monthStart (monthOf days) ≤ days ∧ days < monthStart (monthOf days + 1) := by
  obtain ⟨lower, upper⟩ := year_of_bounds (days + 719468)
  simp only [monthOf]
  generalize yearOf (days + 719468) = y at *
  have length := year_length y
  generalize month : (5 * (days + 719468 - yearStart y) + 2) / 153 = m
  have range : 0 ≤ m ∧ m ≤ 11 := by omega
  rw [month_start_parts range, next_month_parts range]
  constructor
  · omega
  · split <;> omega

theorem of_days_month (days : ℤ) : 1 ≤ (ofDays days).month ∧ (ofDays days).month ≤ 12 := by
  unfold ofDays
  constructor <;> simp only <;> omega

/-- A day lies in the month of its date: after the month's start, before the next. -/
theorem of_days_spec (days : ℤ) :
    let date := ofDays days
    let k := monthIndex date.year date.month
    days = monthStart k + date.day - 1 ∧ 1 ≤ date.day ∧ days < monthStart (k + 1) := by
  have index : monthIndex (ofDays days).year (ofDays days).month = monthOf days :=
    month_index_of (monthOf days)
  obtain ⟨lower, upper⟩ := month_of_bounds days
  simp only [index]
  refine ⟨?_, ?_, upper⟩
  · simp only [ofDays]
    omega
  · simp only [ofDays]
    omega

example : ofDays 20623 = ⟨2026, 6, 19⟩ ∧ toDays 2026 6 19 = 20623 := by decide

end Civil
