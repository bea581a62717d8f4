import FinamTradebot.RiskManager
import Mathlib.Tactic.IntervalCases

/-!
The expiry gate of the risk manager against the contract selector. The selector builds
codes of a letter and a digit, while the gate looks for a dash and a dot in the code
before it compares dates.
-/
namespace FinamExpiryGate
open FinamInterfaces FinamContract FinamRisk Civil

/-- The gate blocks a contract exactly from the first day of its rollover window on,
    which is exactly when the selector has moved past it. -/
def GateAgrees (ticker : String) (rolloverDays now : ℤ) (e : Expiry) : Prop :=
  let blocks := checkExpiry rolloverDays now (contractSymbol ticker e) ≠ .ok ()
  (blocks ↔ windowStart rolloverDays e ≤ now / nsPerDay) ∧
    (blocks ↔ e.index < (nearestExpiry rolloverDays now).index)

theorem gate_open_of_no_dash (rolloverDays now : ℤ) {sym : Symbol}
    (plain : '-' ∉ sym.securityCode.toList) : checkExpiry rolloverDays now sym = .ok () := by
  have absent : sym.securityCode.toList.findIdx? (· == '-') = none := by
    rw [List.findIdx?_eq_none_iff]
    intro c member
    by_contra dash
    simp only [Bool.not_eq_false, beq_iff_eq] at dash
    exact plain (dash ▸ member)
  have unread : dashedExpiry sym.securityCode.toList = none := by
    simp [dashedExpiry, absent]
  simp only [checkExpiry, unread]
  split <;> rfl

theorem quarter_letter_ne_dash (month : ℤ) : quarterLetter month ≠ '-' := by
  unfold quarterLetter
  split_ifs <;> decide

theorem year_digit_no_dash {year : ℤ} (decade : 2020 ≤ year ∧ year ≤ 2029) :
    '-' ∉ (toString (year.tmod 10)).toList := by
  obtain ⟨lower, upper⟩ := decade
  interval_cases year <;> decide

theorem contract_code_no_dash {ticker : String} (plain : '-' ∉ ticker.toList) {e : Expiry}
    (decade : 2020 ≤ e.year ∧ e.year ≤ 2029) :
    '-' ∉ (contractSymbol ticker e).securityCode.toList := by
  intro member
  simp only [contractSymbol, String.toList_append, String.toList_push, List.mem_append,
    List.mem_singleton] at member
  rcases member with (root | letter) | digit
  · exact plain root
  · exact quarter_letter_ne_dash e.month letter.symm
  · exact year_digit_no_dash decade digit

/-- For the codes the selector builds the gate never blocks, so the two agree exactly
    before the contract's rollover window. -/
theorem gate_agrees_iff_before_window (ticker : String)
    (plain : '-' ∉ ticker.toList ∧ '.' ∉ ticker.toList) (now : ℤ) {rolloverDays : ℤ}
    (window : 0 ≤ rolloverDays ∧ rolloverDays ≤ 14) {e : Expiry}
    (quarterly : isQuarterly e.month = true) (decade : 2020 ≤ e.year ∧ e.year ≤ 2029) :
    GateAgrees ticker rolloverDays now e ↔ now / nsPerDay < windowStart rolloverDays e := by
  have silent := gate_open_of_no_dash rolloverDays now (contract_code_no_dash plain.1 decade)
  have selected := nearest_after_iff window now quarterly
  simp only [GateAgrees, silent, selected, ne_eq, not_true_eq_false, false_iff, and_self, not_le]

/-- Ten in the morning, UTC, of a day. -/
def morning (year month day : ℤ) : ℤ := toDays year month day * nsPerDay + 36000 * nsPerSec

theorem gate_agrees_in_may : morning 2026 5 4 / nsPerDay < windowStart 5 ⟨2026, 6⟩ ∧
    GateAgrees "Si" 5 (morning 2026 5 4) ⟨2026, 6⟩ :=
  ⟨by decide +kernel, (gate_agrees_iff_before_window "Si" (by decide) (morning 2026 5 4) (by decide)
    (by decide) (by decide)).mpr (by decide +kernel)⟩

/-- On 2026-06-16 the selector already names SiU6 and the gate still lets SiM6 through:
    it expires on the 19th, and the window of five days opened on the 14th. -/
theorem gate_open_inside_window :
    nearestContract "Si" 5 (morning 2026 6 16) = ⟨"SiU6", "RTSX"⟩ ∧
      contractSymbol "Si" ⟨2026, 6⟩ = ⟨"SiM6", "RTSX"⟩ ∧
      windowStart 5 ⟨2026, 6⟩ = toDays 2026 6 14 ∧
      ¬GateAgrees "Si" 5 (morning 2026 6 16) ⟨2026, 6⟩ := by
  refine ⟨by decide +kernel, by decide +kernel, by decide +kernel, ?_⟩
  intro agrees
  have blocks := agrees.1.mpr (by decide +kernel)
  exact blocks (by decide +kernel)

end FinamExpiryGate
