import FinamTradebot.Civil
import FinamTradebot.Interfaces
import Mathlib.Tactic.IntervalCases

/-!
core/contract.hpp: the third Friday of a month, the choice of the nearest quarterly
contract and the expiry day read back from a contract's code. A code is
"{ROOT}{LETTER}{Y}" with the last digit of the year.
-/
namespace FinamContract
open FinamInterfaces Civil

def thirdFriday (year month : ℤ) : ℤ :=
  let wdi := weekday (toDays year month 1)
  let daysToFirstFri := if wdi ≤ 5 then 5 - wdi else 12 - wdi
  1 + daysToFirstFri + 14

def isQuarterly (month : ℤ) : Bool :=
  month == 3 || month == 6 || month == 9 || month == 12

def nextQuarterlyMonth (month : ℤ) : ℤ :=
  if month < 3 then 3
  else if month < 6 then 6
  else if month < 9 then 9
  else if month < 12 then 12
  else 3

/-- A contract's year and month of expiry. -/
structure Expiry where
  year : ℤ
  month : ℤ
  deriving DecidableEq, Repr

def nextQuarterly (e : Expiry) : Expiry :=
  let next := nextQuarterlyMonth e.month
  ⟨if next ≤ e.month then e.year + 1 else e.year, next⟩

def quarterLetter (month : ℤ) : Char :=
  if month = 3 then 'H'
  else if month = 6 then 'M'
  else if month = 9 then 'U'
  else if month = 12 then 'Z'
  else 'X'

/-- The symbol `nearest_contract` builds for an expiry. -/
def contractSymbol (ticker : String) (e : Expiry) : Symbol :=
  ⟨ticker.push (quarterLetter e.month) ++ toString (e.year.tmod 10), "RTSX"⟩

def nsPerDay : ℤ := 86400 * nsPerSec

/-- The expiry `nearest_contract` settles on; `now` is in nanoseconds. -/
def nearestExpiry (rolloverDays now : ℤ) : Expiry :=
  let ymd := ofDays (now / nsPerDay)
  let cur : Expiry := ⟨ymd.year, ymd.month⟩
  let exp := if isQuarterly cur.month then cur else nextQuarterly cur
  if cur = exp ∧ thirdFriday exp.year exp.month - rolloverDays ≤ ymd.day then nextQuarterly exp
  else exp

def nearestContract (ticker : String) (rolloverDays now : ℤ) : Symbol :=
  contractSymbol ticker (nearestExpiry rolloverDays now)

def monthOfLetter : Char → ℤ
  | 'H' => 3
  | 'M' => 6
  | 'U' => 9
  | 'Z' => 12
  | _ => 0

/-- 0 where the code has no quarter letter before its last character. The last
    character is not checked to be a digit. A character outside ASCII ends in bytes that
    are no letter. -/
def expiryDay (sym : Symbol) : ℤ :=
  match sym.securityCode.toList.reverse with
  | last :: letter :: _ =>
    let year := 2020 + ((last.toNat : ℤ) - '0'.toNat)
    let month := monthOfLetter letter
    if month = 0 ∨ 128 ≤ last.toNat then 0 else thirdFriday year month
  | _ => 0

theorem third_friday_range (year month : ℤ) :
    15 ≤ thirdFriday year month ∧ thirdFriday year month ≤ 21 := by
  have range := weekday_range (toDays year month 1)
  simp only [thirdFriday]
  split_ifs <;> omega

/-- The day is a Friday, and with a day of the month from 15 to 21 the third one. -/
theorem third_friday_weekday (year month : ℤ) :
    weekday (toDays year month (thirdFriday year month)) = 5 := by
  have shift : toDays year month (thirdFriday year month) =
      toDays year month 1 + (thirdFriday year month - 1) := by
    unfold toDays
    omega
  rw [shift, weekday_add]
  simp only [thirdFriday]
  have range := weekday_range (toDays year month 1)
  split_ifs <;> omega

section Selection

/-- The first day on which the rollover window of a contract is open. -/
def windowStart (rolloverDays : ℤ) (e : Expiry) : ℤ :=
  toDays e.year e.month (thirdFriday e.year e.month) - rolloverDays

def Expiry.index (e : Expiry) : ℤ := monthIndex e.year e.month

theorem next_quarterly_after {e : Expiry} (range : 1 ≤ e.month ∧ e.month ≤ 12) :
    e.index < (nextQuarterly e).index := by
  simp only [nextQuarterly, nextQuarterlyMonth, Expiry.index, monthIndex]
  split_ifs <;> omega

/-- No quarterly month lies between a month and its next quarterly one. -/
theorem next_quarterly_first {e s : Expiry} (range : 1 ≤ e.month ∧ e.month ≤ 12)
    (quarterly : isQuarterly s.month = true) (later : e.index < s.index) :
    (nextQuarterly e).index ≤ s.index := by
  simp only [isQuarterly, Bool.or_eq_true, beq_iff_eq] at quarterly
  simp only [Expiry.index, monthIndex] at later
  simp only [nextQuarterly, nextQuarterlyMonth, Expiry.index, monthIndex]
  split_ifs <;> omega

theorem expiry_ext_index {e s : Expiry} (range : 1 ≤ e.month ∧ e.month ≤ 12)
    (quarterly : isQuarterly s.month = true) (same : e.index = s.index) : e = s := by
  obtain ⟨year, month⟩ := e
  obtain ⟨year', month'⟩ := s
  simp only [isQuarterly, Bool.or_eq_true, beq_iff_eq] at quarterly
  simp only [Expiry.index, monthIndex] at same range
  simp only [Expiry.mk.injEq]
  omega

theorem quarterly_next_ne {e : Expiry} (range : 1 ≤ e.month ∧ e.month ≤ 12) :
    e ≠ nextQuarterly e := by
  intro same
  have after := next_quarterly_after range
  rw [← same] at after
  exact lt_irrefl _ after

/-- The selector keeps the current month while it is a quarterly one before its rollover
    window, and goes to the next quarterly month otherwise. -/
theorem nearest_cases (rolloverDays now : ℤ) {ymd : Date} (today : ofDays (now / nsPerDay) = ymd) :
    let cur : Expiry := ⟨ymd.year, ymd.month⟩
    let inside := thirdFriday cur.year cur.month - rolloverDays ≤ ymd.day
    (nearestExpiry rolloverDays now = cur ∧ ¬inside) ∨
      (nearestExpiry rolloverDays now = nextQuarterly cur ∧
        (isQuarterly cur.month = true → inside)) := by
  have range := of_days_month (now / nsPerDay)
  rw [today] at range
  simp only [nearestExpiry, today]
  have moved := quarterly_next_ne (e := ⟨ymd.year, ymd.month⟩) range
  by_cases quarterly : isQuarterly ymd.month = true
  · simp only [quarterly, ↓reduceIte, true_and, forall_const]
    split_ifs with inside
    · exact Or.inr ⟨rfl, inside⟩
    · exact Or.inl ⟨rfl, inside⟩
  · simp [quarterly, moved]

/-- The selector has left a quarterly contract behind exactly when the contract's
    rollover window is open. -/
theorem nearest_after_iff {rolloverDays : ℤ} (window : 0 ≤ rolloverDays ∧ rolloverDays ≤ 14)
    (now : ℤ) {s : Expiry} (quarterly : isQuarterly s.month = true) :
    s.index < (nearestExpiry rolloverDays now).index ↔
      windowStart rolloverDays s ≤ now / nsPerDay := by
  obtain ⟨day, first, bound⟩ := of_days_spec (now / nsPerDay)
  have range := of_days_month (now / nsPerDay)
  generalize today : ofDays (now / nsPerDay) = ymd at *
  have selected := nearest_cases rolloverDays now today
  have after := next_quarterly_after (e := ⟨ymd.year, ymd.month⟩) range
  have friday := third_friday_range s.year s.month
  have start : windowStart rolloverDays s =
      monthStart s.index + thirdFriday s.year s.month - 1 - rolloverDays := rfl
  generalize current : Expiry.mk ymd.year ymd.month = cur at *
  have index : monthIndex ymd.year ymd.month = cur.index := by rw [← current, Expiry.index]
  have months : 1 ≤ cur.month ∧ cur.month ≤ 12 := by rw [← current]; exact range
  rw [index] at day bound
  rcases lt_trichotomy cur.index s.index with earlier | same | later
  · have next := next_quarterly_first months quarterly earlier
    have apart : monthStart (cur.index + 1) ≤ monthStart s.index := month_start_le earlier
    rcases selected with ⟨eq, -⟩ | ⟨eq, -⟩
    · rw [eq]
      omega
    · rw [eq]
      omega
  · obtain rfl := expiry_ext_index months quarterly same
    rcases selected with ⟨eq, outside⟩ | ⟨eq, inside⟩
    · rw [eq]
      omega
    · have opened := inside quarterly
      rw [eq]
      omega
  · have apart := month_start_lt later
    rcases selected with ⟨eq, -⟩ | ⟨eq, -⟩
    · rw [eq]
      omega
    · rw [eq]
      omega

/-- The order of contracts by year, then by month. -/
def Expiry.NotLater (e s : Expiry) : Prop := e.year < s.year ∨ (e.year = s.year ∧ e.month ≤ s.month)

/-- A day lies before the third Friday of the contract's month less the rollover days. -/
def DayBefore (rolloverDays today : ℤ) (e : Expiry) : Prop :=
  ∀ friday, 15 ≤ friday → friday ≤ 21 → weekday (toDays e.year e.month friday) = 5 →
    today < toDays e.year e.month friday - rolloverDays

theorem third_friday_unique {year month friday : ℤ} (range : 15 ≤ friday ∧ friday ≤ 21)
    (day : weekday (toDays year month friday) = 5) : friday = thirdFriday year month := by
  have found := third_friday_weekday year month
  have bounds := third_friday_range year month
  unfold toDays weekday at *
  omega

theorem day_before_iff (rolloverDays today : ℤ) (e : Expiry) :
    DayBefore rolloverDays today e ↔ today < windowStart rolloverDays e := by
  constructor
  · intro before
    have range := third_friday_range e.year e.month
    exact before _ range.1 range.2 (third_friday_weekday e.year e.month)
  · intro before friday first last day
    obtain rfl := third_friday_unique ⟨first, last⟩ day
    exact before

theorem not_later_of_index {e s : Expiry} (first : isQuarterly e.month = true)
    (second : isQuarterly s.month = true) (le : e.index ≤ s.index) : e.NotLater s := by
  simp only [isQuarterly, Bool.or_eq_true, beq_iff_eq] at first second
  simp only [Expiry.index, monthIndex] at le
  unfold Expiry.NotLater
  omega

theorem next_quarterly_quarterly (e : Expiry) : isQuarterly (nextQuarterly e).month = true := by
  simp only [nextQuarterly, nextQuarterlyMonth]
  split_ifs <;> decide

theorem next_quarterly_year (e : Expiry) : e.year ≤ (nextQuarterly e).year := by
  simp only [nextQuarterly]
  split_ifs <;> omega

theorem nearest_quarterly (rolloverDays now : ℤ) :
    isQuarterly (nearestExpiry rolloverDays now).month = true := by
  simp only [nearestExpiry]
  split_ifs with quarterly
  · exact next_quarterly_quarterly _
  · exact quarterly
  · exact next_quarterly_quarterly _
  · exact next_quarterly_quarterly _

theorem nearest_year (rolloverDays now : ℤ) :
    (ofDays (now / nsPerDay)).year ≤ (nearestExpiry rolloverDays now).year := by
  rcases nearest_cases rolloverDays now rfl with ⟨kept, -⟩ | ⟨moved, -⟩
  · rw [kept]
  · rw [moved]
    exact next_quarterly_year _

theorem quarter_letter_month {month : ℤ} (quarterly : isQuarterly month = true) :
    quarterLetter month ∈ ['H', 'M', 'U', 'Z'] ∧ monthOfLetter (quarterLetter month) = month := by
  simp only [isQuarterly, Bool.or_eq_true, beq_iff_eq] at quarterly
  rcases quarterly with ((rfl | rfl) | rfl) | rfl <;> decide

theorem last_digit_text {year : ℤ} (positive : 0 ≤ year) :
    toString (year.tmod 10) = String.singleton (Nat.digitChar (year % 10).toNat) := by
  rw [Int.tmod_eq_emod_of_nonneg positive]
  have lower := Int.emod_nonneg year (show (10 : ℤ) ≠ 0 by decide)
  have upper := Int.emod_lt_of_pos year (show (0 : ℤ) < 10 by decide)
  generalize year % 10 = digit at *
  interval_cases digit <;> rfl

/-- The contract selected is the first quarterly one whose rollover window has not
    opened, so the selection follows the clock forward; its code has a quarter letter and
    the last digit of its year. -/
theorem nearest_contract_front (ticker : String) {rolloverDays now : ℤ}
    (window : 0 ≤ rolloverDays ∧ rolloverDays ≤ 14)
    (modern : 1970 ≤ (ofDays (now / nsPerDay)).year) :
    let e := nearestExpiry rolloverDays now
    isQuarterly e.month = true ∧ DayBefore rolloverDays (now / nsPerDay) e ∧
      (∀ s, isQuarterly s.month = true → DayBefore rolloverDays (now / nsPerDay) s → e.NotLater s) ∧
      (∃ letter ∈ ['H', 'M', 'U', 'Z'], monthOfLetter letter = e.month ∧
        nearestContract ticker rolloverDays now =
          ⟨(ticker.push letter).push (Nat.digitChar (e.year % 10).toNat), "RTSX"⟩) ∧
      ∀ later, now ≤ later → e.NotLater (nearestExpiry rolloverDays later) := by
  intro e
  have quarterly : isQuarterly e.month = true := nearest_quarterly rolloverDays now
  have selected {s : Expiry} := nearest_after_iff (s := s) window now
  have before : now / nsPerDay < windowStart rolloverDays e := by
    by_contra opened
    exact lt_irrefl _ ((selected quarterly).mpr (not_lt.mp opened))
  refine ⟨quarterly, (day_before_iff _ _ _).mpr before, ?_, ?_, ?_⟩
  · intro s other open_
    rw [day_before_iff] at open_
    have notAfter : ¬s.index < e.index := fun after =>
      absurd ((selected other).mp after) (not_le.mpr open_)
    exact not_later_of_index quarterly other (not_lt.mp notAfter)
  · obtain ⟨letter, month⟩ := quarter_letter_month quarterly
    refine ⟨quarterLetter e.month, letter, month, ?_⟩
    have year : _ ≤ e.year := nearest_year rolloverDays now
    have digit := last_digit_text (show 0 ≤ e.year by omega)
    rw [nearestContract, contractSymbol, digit, String.append_singleton]
  · intro later le
    have days : now / nsPerDay ≤ later / nsPerDay := Int.ediv_le_ediv (by decide) le
    have other := nearest_quarterly rolloverDays later
    have reached := nearest_after_iff window later other
    apply not_later_of_index quarterly other
    by_contra earlier
    have left := (selected other).mp (not_le.mp earlier)
    exact lt_irrefl _ (reached.mpr (left.trans days))

/-- On 2026-12-13 the window before the third Friday is open; the first contract with a
    later one is that of March 2027. -/
theorem nearest_contract_december :
    nearestExpiry 5 1797120000000000000 = ⟨2027, 3⟩ ∧
      ∀ s, isQuarterly s.month = true → DayBefore 5 20800 s → Expiry.NotLater ⟨2027, 3⟩ s := by
  have front := @nearest_contract_front "Si" 5 1797120000000000000 (by decide) (by decide)
  have selected : nearestExpiry 5 1797120000000000000 = ⟨2027, 3⟩ := by decide
  refine ⟨selected, ?_⟩
  intro s quarterly before
  have first := front.2.2.1 s quarterly before
  rwa [selected] at first

end Selection

end FinamContract
