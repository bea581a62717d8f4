import FinamTradebot.RiskManager
import FinamTradebot.Runs
import Mathlib.Algebra.Order.Field.Rat

/-!
The peak behind the drawdown limit. Two writers move the equity, the poll and the
profit of a closing fill, and each keeps the running maximum.
-/
namespace FinamHighWater
open FinamInterfaces FinamRisk Runs

/-- Every value that `liquid_value` has along a run, the first and the last included. -/
def liquidValues : RiskManager → List RiskEvent → List ℚ
  | rm, [] => [rm.state.liquidValue]
  | rm, e :: rest => rm.state.liquidValue :: liquidValues (rm.react e) rest

/-- The largest of 0 and the values. -/
def highWater (values : List ℚ) : ℚ := values.foldr max 0

def Covered (rm : RiskManager) : Prop := 0 ≤ rm.peakLiquid ∧ rm.state.liquidValue ≤ rm.peakLiquid

theorem le_high_water {values : List ℚ} {value : ℚ} (member : value ∈ values) :
    value ≤ highWater values := by
  induction values with
  | nil => cases member
  | cons first rest ih =>
    rcases List.mem_cons.mp member with rfl | later
    · exact le_max_left _ _
    · exact (ih later).trans (le_max_right _ _)

theorem liquid_values_start (rm : RiskManager) (events : List RiskEvent) :
    rm.state.liquidValue ∈ liquidValues rm events := by
  cases events <;> exact List.mem_cons_self

theorem raised_peak (peak value : ℚ) : (if peak < value then value else peak) = max peak value := by
  split_ifs with above
  · exact (max_eq_right above.le).symm
  · exact (max_eq_left (not_lt.mp above)).symm

section React
variable {rm : RiskManager}

theorem fill_peak (covered : Covered rm) (first : ℤ) (upd : OrderUpdate) :
    (rm.onFill first upd).peakLiquid =
      max rm.peakLiquid (rm.onFill first upd).state.liquidValue := by
  unfold RiskManager.onFill
  split
  · exact (max_eq_left covered.2).symm
  · split
    · exact raised_peak _ _
    · exact (max_eq_left covered.2).symm

theorem poll_peak (covered : Covered rm) (reply : Except String GetAccountResponse) (now : ℤ) :
    (rm.refreshAccount reply now).1.peakLiquid =
      max rm.peakLiquid (rm.refreshAccount reply now).1.state.liquidValue := by
  cases reply with
  | error message => exact (max_eq_left covered.2).symm
  | ok resp => exact raised_peak _ _

/-- Whatever happens, the peak is raised to the equity that results. -/
theorem react_peak (covered : Covered rm) (e : RiskEvent) :
    (rm.react e).peakLiquid = max rm.peakLiquid (rm.react e).state.liquidValue := by
  cases e with
  | fill first upd => exact fill_peak covered first upd
  | poll reply now => exact poll_peak covered reply now
  | trip reason =>
    obtain ⟨text, frame⟩ := trip_frame rm reason
    rw [RiskManager.react, frame]
    exact (max_eq_left covered.2).symm

theorem react_covered (covered : Covered rm) (e : RiskEvent) : Covered (rm.react e) := by
  unfold Covered
  rw [react_peak covered]
  exact ⟨covered.1.trans (le_max_left _ _), le_max_right _ _⟩

theorem run_covered (covered : Covered rm) (events : List RiskEvent) :
    Covered (run RiskManager.react rm events) :=
  run_invariant (I := Covered) (fun _ e here => react_covered here e) events covered

theorem run_peak (covered : Covered rm) (events : List RiskEvent) :
    (run RiskManager.react rm events).peakLiquid =
      max rm.peakLiquid (highWater (liquidValues rm events)) := by
  induction events generalizing rm with
  | nil =>
    rw [run, liquidValues, highWater, List.foldr_cons, List.foldr_nil]
    exact (max_eq_left (max_le covered.2 covered.1)).symm
  | cons e rest ih =>
    have start := le_high_water (liquid_values_start (rm.react e) rest)
    have values : highWater (liquidValues rm (e :: rest)) =
        max rm.state.liquidValue (highWater (liquidValues (rm.react e) rest)) := rfl
    rw [run, ih (react_covered covered e), react_peak covered e, values, max_assoc,
      max_eq_right start, ← max_assoc, max_eq_left covered.2]

theorem run_config (rm : RiskManager) (events : List RiskEvent) :
    (run RiskManager.react rm events).cfg = rm.cfg := by
  have keep : ∀ (next : RiskManager) (e : RiskEvent),
      next.cfg = rm.cfg → (next.react e).cfg = rm.cfg := by
    intro next e same
    cases e with
    | fill first upd =>
      obtain ⟨pnl, peak, entries, frame⟩ := on_fill_frame next first upd
      rw [RiskManager.react, frame]
      exact same
    | poll reply now =>
      obtain ⟨state, peak, frame⟩ := refresh_frame next reply now
      rw [RiskManager.react, frame]
      exact same
    | trip reason =>
      obtain ⟨text, frame⟩ := trip_frame next reason
      rw [RiskManager.react, frame]
      exact same
  exact run_invariant keep events rfl

theorem check_drawdown_iff (rm : RiskManager) :
    rm.checkDrawdown = reject .riskLimitExceeded "max drawdown exceeded" ↔
      1 ≤ rm.peakLiquid ∧
        rm.cfg.maxDrawdownPct * rm.peakLiquid ≤ (rm.peakLiquid - rm.state.liquidValue) * 100 := by
  unfold RiskManager.checkDrawdown
  by_cases low : rm.peakLiquid < 1
  · rw [if_pos low]
    simp [reject, low]
  · have positive : 0 < rm.peakLiquid := lt_of_lt_of_le one_pos (not_lt.mp low)
    have scaled : rm.drawdownPct = (rm.peakLiquid - rm.state.liquidValue) * 100 / rm.peakLiquid :=
      div_mul_eq_mul_div _ _ _
    have limit : rm.cfg.maxDrawdownPct ≤ rm.drawdownPct ↔
        rm.cfg.maxDrawdownPct * rm.peakLiquid ≤ (rm.peakLiquid - rm.state.liquidValue) * 100 := by
      rw [scaled, le_div_iff₀ positive]
    rw [if_neg low, ← limit, and_iff_right (not_lt.mp low)]
    by_cases deep : rm.cfg.maxDrawdownPct ≤ rm.drawdownPct
    · simp [deep]
    · simp [reject, deep]

end React

/-- The drawdown gate measures from the highest equity ever seen, and from 0 before. -/
theorem drawdown_from_high_water (cfg : RiskConfig) (events : List RiskEvent) :
    let rm := run RiskManager.react (.init cfg) events
    let peak := highWater (liquidValues (.init cfg) events)
    rm.peakLiquid = peak ∧ rm.state.liquidValue ≤ rm.peakLiquid ∧
      (∀ later, rm.peakLiquid ≤ (run RiskManager.react rm later).peakLiquid) ∧
      (rm.checkDrawdown = reject .riskLimitExceeded "max drawdown exceeded" ↔
        1 ≤ peak ∧ cfg.maxDrawdownPct * peak ≤ (peak - rm.state.liquidValue) * 100) := by
  intro rm peak
  have covered : Covered (.init cfg) := ⟨le_rfl, le_rfl⟩
  have tracked : rm.peakLiquid = peak := by
    have reached := run_peak covered events
    have zero : 0 ≤ peak := le_high_water (liquid_values_start (.init cfg) events)
    exact reached.trans (max_eq_right zero)
  refine ⟨tracked, (run_covered covered events).2, ?_, ?_⟩
  · intro later
    rw [run_peak (run_covered covered events) later]
    exact le_max_left _ _
  · have config : rm.cfg = cfg := run_config (.init cfg) events
    rw [check_drawdown_iff, tracked, config]

end FinamHighWater
