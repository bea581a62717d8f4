import FinamTradebot.MoexData

/-!
The contracts the history script asks for, against those the bot trades. The script names
a contract by two digits of the year where the bot writes one, and stops at the last
expiry month that has begun, while the bot is already in the next contract.
-/
namespace FinamHistorySeries
open FinamInterfaces FinamContract FinamMoex Civil

section Secid

theorem nat_text (n : ℕ) : (toString (n : ℤ)).toList = Nat.toDigits 10 n := by
  change (Nat.repr n).toList = _
  simp

theorem text_injective {m n : ℕ} (same : toString (m : ℤ) = toString (n : ℤ)) : m = n := by
  have digits := congrArg String.toList same
  rw [nat_text, nat_text] at digits
  have first := Nat.ofDigitChars_toDigits (b := 10) (n := m) (by decide) (by decide)
  have second := Nat.ofDigitChars_toDigits (b := 10) (n := n) (by decide) (by decide)
  rw [← first, digits, second]

theorem month_letter_quarter {month : ℤ} (quarterly : isQuarterly month = true) :
    monthLetter month = some (quarterLetter month) := by
  simp only [isQuarterly, Bool.or_eq_true, beq_iff_eq] at quarterly
  rcases quarterly with ((rfl | rfl) | rfl) | rfl <;> rfl

theorem make_secid_quarter (ticker : String) {month : ℤ} (quarterly : isQuarterly month = true)
    (year : ℤ) : makeSecid ticker month year =
      .ok (ticker.push (quarterLetter month) ++ toString (year % 100)) := by
  rw [makeSecid, month_letter_quarter quarterly]

/-- Script and bot write the same name in the first decade of a century. -/
theorem secid_matches_code_iff (ticker : String) {month year : ℤ}
    (quarterly : isQuarterly month = true) (modern : 2000 ≤ year) :
    makeSecid ticker month year = .ok (contractSymbol ticker ⟨year, month⟩).securityCode ↔
      year % 100 < 10 := by
  have digit : year.tmod 10 = year % 10 := Int.tmod_eq_emod_of_nonneg (by omega)
  rw [make_secid_quarter ticker quarterly, contractSymbol, Except.ok.injEq, String.append_right_inj,
    digit]
  constructor
  · intro same
    obtain ⟨m, two⟩ : ∃ m : ℕ, year % 100 = m := ⟨(year % 100).toNat, by omega⟩
    obtain ⟨n, one⟩ : ∃ n : ℕ, year % 10 = n := ⟨(year % 10).toNat, by omega⟩
    rw [two, one] at same
    have equal := text_injective same
    omega
  · intro small
    rw [show year % 100 = year % 10 by omega]

theorem secid_of_2006 :
    makeSecid "Si" 6 2006 = .ok (contractSymbol "Si" ⟨2006, 6⟩).securityCode :=
  (secid_matches_code_iff "Si" (by decide) (by decide)).mpr (by decide)

/-- The sample of the docstring: SiM4 is meant, SiM24 is made. -/
theorem secid_of_2024 :
    makeSecid "Si" 6 2024 ≠ .ok (contractSymbol "Si" ⟨2024, 6⟩).securityCode := by
  decide

end Secid

section Series

/-- The quarterly month with a running number: four to the year, from March of year 0. -/
def quarter (q : ℤ) : Expiry := ⟨q / 4, 3 * (q % 4) + 3⟩

theorem quarter_index (q : ℤ) : (quarter q).index = 3 * q := by
  simp only [quarter, Expiry.index, monthIndex]
  omega

theorem quarter_quarterly (q : ℤ) : isQuarterly (quarter q).month = true := by
  simp only [quarter, isQuarterly, Bool.or_eq_true, beq_iff_eq]
  omega

theorem quarter_of_quarterly {e : Expiry} (quarterly : isQuarterly e.month = true) :
    e = quarter (e.index / 3) := by
  obtain ⟨year, month⟩ := e
  simp only [isQuarterly, Bool.or_eq_true, beq_iff_eq] at quarterly
  simp only [quarter, Expiry.index, monthIndex, Expiry.mk.injEq]
  omega

theorem quarter_next (q : ℤ) : quarter (q + 1) =
    if 12 < (quarter q).month + 3 then ⟨(quarter q).year + 1, (quarter q).month + 3 - 12⟩
    else ⟨(quarter q).year, (quarter q).month + 3⟩ := by
  unfold quarter
  split_ifs with december
  · rw [Expiry.mk.injEq]
    dsimp only at december ⊢
    omega
  · rw [Expiry.mk.injEq]
    dsimp only at december ⊢
    omega

def dateIndex (d : PyDate) : ℤ := monthIndex d.year d.month

/-- A date lies in its month, and its month in the years of `date`. -/
theorem date_spec (d : PyDate) :
    d.days = monthStart (dateIndex d) + d.day - 1 ∧ 1 ≤ d.day ∧
      d.days < monthStart (dateIndex d + 1) ∧ 10 ≤ dateIndex d ∧ dateIndex d ≤ 119997 := by
  obtain ⟨day, first, before⟩ := of_days_spec d.days
  have range := d.range
  have earliest : toDays 1 1 1 = monthStart 10 := by decide
  have latest : toDays 9999 12 31 = monthStart 119998 - 1 := by decide
  have start : d.days = monthStart (dateIndex d) + d.day - 1 := day
  have first : 1 ≤ d.day := first
  have before : d.days < monthStart (dateIndex d + 1) := before
  refine ⟨start, first, before, ?_, ?_⟩
  · by_contra early
    have le := month_start_le (show dateIndex d + 1 ≤ 10 by omega)
    omega
  · by_contra late
    have le := month_start_le (show (119998 : ℤ) ≤ dateIndex d by omega)
    omega

theorem date_months (d : PyDate) : 1 ≤ d.month ∧ d.month ≤ 12 := of_days_month d.days

theorem date_index_mono {first second : PyDate} (ordered : first.days ≤ second.days) :
    dateIndex first ≤ dateIndex second := by
  by_contra later
  have le := month_start_le (show dateIndex second + 1 ≤ dateIndex first by omega)
  have early := date_spec first
  have late := date_spec second
  omega

/-- The first day of a quarterly month has come exactly when its month has. -/
theorem quarter_begun_iff (q : ℤ) (d : PyDate) :
    monthStart (3 * q) ≤ d.days ↔ q ≤ dateIndex d / 3 := by
  obtain ⟨start, first, before, -, -⟩ := date_spec d
  constructor
  · intro begun
    by_contra later
    have le := month_start_le (show dateIndex d + 1 ≤ 3 * q by omega)
    omega
  · intro le
    have month := month_start_le (show 3 * q ≤ dateIndex d by omega)
    omega

section Loops
variable {ticker : String} {toDate : PyDate} {q : ℤ} {fuel : ℕ} {series : List SeriesEntry}

/-- What the script records for a quarterly month. -/
def entry (ticker : String) (q : ℤ) : SeriesEntry :=
  let e := quarter q
  ⟨ticker.push (quarterLetter e.month) ++ toString (e.year % 100), e.month, e.year⟩

theorem reach_here {year month : ℤ} (quarterly : month % 3 = 0) :
    reachQuarter (fuel + 1) year month = some ⟨year, month⟩ := by
  rw [reachQuarter, if_neg (not_not.mpr quarterly)]

theorem reach_next {year month : ℤ} (between : month % 3 ≠ 0) (months : month ≤ 12) :
    reachQuarter (fuel + 1) year month = reachQuarter fuel year (month + 1) := by
  rw [reachQuarter, if_pos between, if_neg (by omega)]

theorem reach_quarter {year month : ℤ} (months : 1 ≤ month ∧ month ≤ 12) (enough : 3 ≤ fuel) :
    reachQuarter fuel year month = some (quarter ((monthIndex year month + 2) / 3)) := by
  obtain ⟨fuel, rfl⟩ := Nat.exists_eq_add_of_le' enough
  have found : ∀ n : ℤ, month + n ≤ 12 → (month + n) % 3 = 0 → 0 ≤ n → n ≤ 2 →
      (⟨year, month + n⟩ : Expiry) = quarter ((monthIndex year month + 2) / 3) := by
    intro n upper quarterly first last
    simp only [quarter, monthIndex, Expiry.mk.injEq]
    omega
  rcases (by omega : month % 3 = 0 ∨ month % 3 = 2 ∨ month % 3 = 1) with here | one | two
  · rw [reach_here here, ← found 0 (by omega) (by omega) (by omega) (by omega), add_zero]
  · rw [reach_next (by omega) months.2, reach_here (by omega),
      ← found 1 (by omega) (by omega) (by omega) (by omega)]
  · rw [reach_next (by omega) months.2, reach_next (by omega) (by omega), reach_here (by omega),
      ← found 2 (by omega) (by omega) (by omega) (by omega), add_assoc]
    rfl

theorem first_of_quarter (years : 4 ≤ q ∧ q ≤ 39999) :
    ∃ first, firstOfMonth (quarter q).year (quarter q).month = .ok first ∧
      first.days = monthStart (3 * q) := by
  have valid : (1 ≤ (quarter q).year ∧ (quarter q).year ≤ 9999) ∧
      1 ≤ (quarter q).month ∧ (quarter q).month ≤ 12 := by
    simp only [quarter]
    omega
  refine ⟨_, dif_pos valid, ?_⟩
  have index : monthIndex (quarter q).year (quarter q).month = 3 * q := quarter_index q
  simp only [toDays, index]
  omega

theorem collect_step (years : 4 ≤ q ∧ q ≤ 39999) (begun : q ≤ dateIndex toDate / 3) :
    collectSeries ticker toDate (fuel + 1) (quarter q).year (quarter q).month series =
      collectSeries ticker toDate fuel (quarter (q + 1)).year (quarter (q + 1)).month
        (series ++ [entry ticker q]) := by
  obtain ⟨first, found, days⟩ := first_of_quarter years
  have reached : first.days ≤ toDate.days := by
    rw [days]
    exact (quarter_begun_iff q toDate).mpr begun
  have secid := make_secid_quarter ticker (quarter_quarterly q) (quarter q).year
  rw [collectSeries, found]
  dsimp only
  rw [if_pos reached, secid]
  dsimp only
  rw [quarter_next]
  split_ifs
  · rfl
  · rfl

theorem collect_stop (years : 4 ≤ q) (ahead : dateIndex toDate / 3 < q) (near : q ≤ 40000) :
    collectSeries ticker toDate (fuel + 1) (quarter q).year (quarter q).month series =
      some (if q = 40000 then .error .valueError else .ok series) := by
  rw [collectSeries]
  by_cases past : q = 40000
  · have failed : firstOfMonth (quarter q).year (quarter q).month = .error .valueError := by
      rw [past]
      rfl
    rw [failed, if_pos past]
  · obtain ⟨first, found, days⟩ := first_of_quarter (q := q) ⟨years, by omega⟩
    have beyond : ¬first.days ≤ toDate.days := by
      rw [days, quarter_begun_iff]
      omega
    rw [found, if_neg past]
    exact if_neg beyond

/-- From a quarter up to the one after the last begun, one entry for each. -/
theorem collect_series (n : ℕ) (years : 4 ≤ q) (last : q + n = dateIndex toDate / 3 + 1)
    (enough : n < fuel) :
    collectSeries ticker toDate fuel (quarter q).year (quarter q).month series =
      some (if dateIndex toDate / 3 = 39999 then .error .valueError
        else .ok (series ++ (List.range n).map fun i : ℕ => entry ticker (q + i))) := by
  have bounds := date_spec toDate
  induction n generalizing q fuel series with
  | zero =>
    obtain ⟨fuel, rfl⟩ := Nat.exists_eq_add_of_lt enough
    rw [collect_stop years (by omega) (by omega)]
    simp only [List.range_zero, List.map_nil, List.append_nil]
    have same : q = 40000 ↔ dateIndex toDate / 3 = 39999 := by omega
    rw [if_congr same rfl rfl]
  | succ n ih =>
    obtain ⟨fuel, rfl⟩ : ∃ rest, fuel = rest + 1 := ⟨fuel - 1, by omega⟩
    rw [collect_step ⟨years, by omega⟩ (by omega), ih (by omega) (by omega) (by omega)]
    have shifted : ∀ i : ℕ, q + 1 + (i : ℤ) = q + ((i + 1 : ℕ) : ℤ) := by
      intro i
      omega
    simp only [List.range_succ_eq_map, List.map_cons, List.map_map, Function.comp_def, shifted,
      List.append_assoc, List.singleton_append, Nat.cast_zero, add_zero, Nat.succ_eq_add_one]

end Loops

/-- The entries of the quarters from the first date's month to the last begun. -/
def seriesOf (ticker : String) (fromDate toDate : PyDate) : List SeriesEntry :=
  let first := (dateIndex fromDate + 2) / 3
  (List.range (dateIndex toDate / 3 + 1 - first).toNat).map fun i : ℕ => entry ticker (first + i)

theorem quarterly_series_spec (ticker : String) {fromDate toDate : PyDate}
    (ordered : fromDate.days ≤ toDate.days) : ∃ enough, ∀ fuel, enough ≤ fuel →
      quarterlySeries fuel ticker fromDate toDate =
        some (if dateIndex toDate / 3 = 39999 then .error .valueError
          else .ok (seriesOf ticker fromDate toDate)) := by
  have months := date_index_mono ordered
  have early := date_spec fromDate
  refine ⟨(dateIndex toDate / 3 + 1 - (dateIndex fromDate + 2) / 3).toNat + 3, ?_⟩
  intro fuel enough
  have reached : reachQuarter fuel fromDate.year fromDate.month =
      some (quarter ((dateIndex fromDate + 2) / 3)) :=
    reach_quarter (date_months fromDate) (by omega)
  rw [quarterlySeries, reached]
  dsimp only
  rw [collect_series (dateIndex toDate / 3 + 1 - (dateIndex fromDate + 2) / 3).toNat (by omega)
    (by omega) (by omega), List.nil_append]
  rfl

theorem returns_iff {ticker : String} {fromDate toDate : PyDate}
    (ordered : fromDate.days ≤ toDate.days) (series : List SeriesEntry) :
    Returns (quarterlySeries · ticker fromDate toDate) series ↔
      dateIndex toDate / 3 ≠ 39999 ∧ series = seriesOf ticker fromDate toDate := by
  obtain ⟨bound, computed⟩ := quarterly_series_spec ticker ordered
  constructor
  · rintro ⟨enough, returned⟩
    have both := (returned (max bound enough) (le_max_right _ _)).symm.trans
      (computed (max bound enough) (le_max_left _ _))
    split_ifs at both with past
    · cases both
    · exact ⟨past, by simpa using both⟩
  · rintro ⟨within, rfl⟩
    refine ⟨bound, fun fuel enough => ?_⟩
    have found := computed fuel enough
    rwa [if_neg within] at found

def Later (a b : SeriesEntry) : Prop := a.year < b.year ∨ (a.year = b.year ∧ a.month < b.month)

theorem series_increasing (ticker : String) (fromDate toDate : PyDate) :
    (seriesOf ticker fromDate toDate).Pairwise Later := by
  rw [seriesOf, List.pairwise_map]
  refine List.pairwise_lt_range.imp ?_
  intro i j less
  simp only [Later, entry, quarter]
  omega

theorem quarterly_in_series {ticker : String} {fromDate toDate : PyDate} {e : Expiry}
    (quarterly : isQuarterly e.month = true) :
    (∃ x ∈ seriesOf ticker fromDate toDate, x.month = e.month ∧ x.year = e.year) ↔
      dateIndex fromDate ≤ e.index ∧ e.index ≤ dateIndex toDate := by
  have number := quarter_of_quarterly quarterly
  have index : e.index = 3 * (e.index / 3) := by
    rw [← quarter_index, ← number]
  constructor
  · rintro ⟨x, member, month, year⟩
    obtain ⟨i, below, rfl⟩ := List.mem_map.mp member
    rw [List.mem_range] at below
    have same : e = quarter ((dateIndex fromDate + 2) / 3 + i) := by
      obtain ⟨eYear, eMonth⟩ := e
      simp only [entry] at month year
      rw [← month, ← year]
    rw [same, quarter_index]
    omega
  · rintro ⟨lower, upper⟩
    have split : e.index / 3 =
        (dateIndex fromDate + 2) / 3 + ((e.index / 3 - (dateIndex fromDate + 2) / 3).toNat : ℕ) := by
      omega
    refine ⟨entry ticker (e.index / 3), ?_, ?_, ?_⟩
    · rw [split]
      exact List.mem_map_of_mem (List.mem_range.mpr (by omega))
    · exact (congrArg Expiry.month number).symm
    · exact (congrArg Expiry.year number).symm

/-- What a download should be: it ends, its contracts come in order and only once, and the
    contract of every day is among them. -/
structure Covers (ticker : String) (fromDate toDate : PyDate) (series : List SeriesEntry) : Prop where
  returned : Returns (quarterlySeries · ticker fromDate toDate) series
  increasing : series.Pairwise Later
  covered : ∀ now, fromDate.days ≤ now / nsPerDay → now / nsPerDay ≤ toDate.days →
    ∃ x ∈ series, x.month = (nearestExpiry 5 now).month ∧ x.year = (nearestExpiry 5 now).year

/-- The last date lies in a quarterly month before its rollover days, and not in the last
    month that `date` has. -/
def EndsBeforeRollover (toDate : PyDate) : Prop :=
  isQuarterly toDate.month = true ∧ toDate.day < thirdFriday toDate.year toDate.month - 5 ∧
    ¬(toDate.year = 9999 ∧ toDate.month = 12)

theorem start_of_day (d : PyDate) : d.days * nsPerDay / nsPerDay = d.days :=
  Int.mul_ediv_cancel _ (by decide)

/-- On the last day the bot is in the month of that day, not in a later one. -/
theorem kept_of_index {toDate : PyDate}
    (reached : (nearestExpiry 5 (toDate.days * nsPerDay)).index ≤ dateIndex toDate) :
    isQuarterly toDate.month = true ∧ toDate.day < thirdFriday toDate.year toDate.month - 5 := by
  have today := start_of_day toDate
  have quarterly := nearest_quarterly 5 (toDate.days * nsPerDay)
  rcases nearest_cases 5 (toDate.days * nsPerDay) (congrArg ofDays today) with
    ⟨kept, outside⟩ | ⟨moved, -⟩
  · rw [kept] at quarterly
    exact ⟨quarterly, not_le.mp outside⟩
  · have after := next_quarterly_after (e := ⟨toDate.year, toDate.month⟩) (date_months toDate)
    have index : Expiry.index ⟨toDate.year, toDate.month⟩ = dateIndex toDate := rfl
    rw [moved] at reached
    change (nextQuarterly ⟨toDate.year, toDate.month⟩).index ≤ _ at reached
    omega

/-- Before the rollover days of the last date's month no day of the range is in a later
    contract. -/
theorem reached_of_kept {toDate : PyDate} (quarterly : isQuarterly toDate.month = true)
    (before : toDate.day < thirdFriday toDate.year toDate.month - 5) {now : ℤ}
    (upper : now / nsPerDay ≤ toDate.days) : (nearestExpiry 5 now).index ≤ dateIndex toDate := by
  by_contra later
  have opened := (nearest_after_iff (show (0 : ℤ) ≤ 5 ∧ (5 : ℤ) ≤ 14 by decide) now
    (s := ⟨toDate.year, toDate.month⟩) quarterly).mp (not_le.mp later)
  obtain ⟨start, -⟩ := date_spec toDate
  have window : windowStart 5 ⟨toDate.year, toDate.month⟩ =
      monthStart (dateIndex toDate) + thirdFriday toDate.year toDate.month - 1 - 5 := rfl
  omega

theorem nearest_from {fromDate : PyDate} {now : ℤ} (lower : fromDate.days ≤ now / nsPerDay) :
    dateIndex fromDate ≤ (nearestExpiry 5 now).index := by
  obtain ⟨day, first, before⟩ := of_days_spec (now / nsPerDay)
  have range := of_days_month (now / nsPerDay)
  have start := date_spec fromDate
  have month : dateIndex fromDate ≤ monthIndex (ofDays (now / nsPerDay)).year
      (ofDays (now / nsPerDay)).month := by
    by_contra earlier
    have le := month_start_le (not_le.mp earlier)
    omega
  rcases nearest_cases 5 now rfl with ⟨kept, -⟩ | ⟨moved, -⟩
  · rw [kept]
    exact month
  · have after := next_quarterly_after
      (e := ⟨(ofDays (now / nsPerDay)).year, (ofDays (now / nsPerDay)).month⟩) range
    rw [moved]
    exact month.trans after.le

/-- Exactly when the download holds the contract of every day of its range. -/
theorem series_covers_iff (ticker : String) {fromDate toDate : PyDate}
    (ordered : fromDate.days ≤ toDate.days) :
    (∃ series, Covers ticker fromDate toDate series) ↔ EndsBeforeRollover toDate := by
  have months := date_months toDate
  have index : dateIndex toDate = 12 * toDate.year + toDate.month - 3 := rfl
  constructor
  · rintro ⟨series, returned, -, covered⟩
    obtain ⟨within, rfl⟩ := (returns_iff ordered series).mp returned
    have today := start_of_day toDate
    have last := covered (toDate.days * nsPerDay) (by rwa [today]) (by rw [today])
    rw [quarterly_in_series (nearest_quarterly 5 _)] at last
    obtain ⟨quarterly, before⟩ := kept_of_index last.2
    exact ⟨quarterly, before, by omega⟩
  · rintro ⟨quarterly, before, within⟩
    have early := date_spec toDate
    refine ⟨_, (returns_iff ordered _).mpr ⟨by omega, rfl⟩, series_increasing _ _ _, ?_⟩
    intro now lower upper
    rw [quarterly_in_series (nearest_quarterly 5 now)]
    exact ⟨nearest_from lower, reached_of_kept quarterly before upper⟩

/-- 2026-01-01 to 2026-03-10: the range ends before the rollover of the March contract. -/
theorem early_march_covered :
    ∃ series, Covers "Si" ⟨20454, by decide⟩ ⟨20522, by decide⟩ series :=
  (series_covers_iff "Si" (by decide)).mpr ⟨by decide, by decide, by decide⟩

/-- 2026-01-01 to 2026-03-30: the June contract is the front one and is not asked for. -/
theorem late_march_uncovered :
    ¬∃ series, Covers "Si" ⟨20454, by decide⟩ ⟨20542, by decide⟩ series := by
  rintro ⟨series, returned, -, covered⟩
  obtain ⟨-, rfl⟩ := (returns_iff (by decide) series).mp returned
  obtain ⟨x, member, month, -⟩ := covered (20542 * nsPerDay) (by decide) (by decide)
  have front : (nearestExpiry 5 (20542 * nsPerDay)).month = 6 := by decide
  rw [front] at month
  have all : ∀ y ∈ seriesOf "Si" ⟨20454, by decide⟩ ⟨20542, by decide⟩, y.month = 3 := by decide
  have march := all x member
  omega

end Series

end FinamHistorySeries
