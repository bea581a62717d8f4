import FinamTradebot.Runs
import FinamTradebot.SlidingWindow
import FinamTradebot.TradeFlow
import Mathlib.Algebra.Order.BigOperators.Group.List
import Mathlib.Algebra.Order.Field.Rat
import Mathlib.Data.List.Induction
import Mathlib.Tactic.Linarith

/-!
The trade flow over a session's trades. The two deques are trimmed at their fronts when
a trade arrives; with trades in the order of their times they hold the trades since the
last reset that lie inside their spans.
-/
namespace FinamTradeWindows
open FinamInterfaces FinamOrderBook FinamTradeFlow SlidingWindow Runs

inductive FlowCall where
  | trade (e : TradeEvent)
  | reset

def flowStep (a : TradeFlowAnalyzer) : FlowCall → TradeFlowAnalyzer
  | .trade e => (a.onTrade e).1
  | .reset => a.sessionReset

def allTrades (calls : List FlowCall) : List TradeEvent :=
  calls.filterMap fun
    | .trade e => some e
    | .reset => none

def afterCall (trades : List TradeEvent) : FlowCall → List TradeEvent
  | .trade e => trades ++ [e]
  | .reset => []

/-- The trades since the last reset, in the order of their arrival. -/
def sinceReset (calls : List FlowCall) : List TradeEvent := calls.foldl afterCall []

def signedVolume (e : TradeEvent) : ℚ := if e.isBuy then e.volume else -e.volume

def imbalance (trades : List TradeEvent) : ℚ :=
  let buy := sideVolume true trades
  let sell := sideVolume false trades
  if buy + sell < 1 / 1000000000 then 0 else (buy - sell) / (buy + sell)

def tfiSpan (cfg : TradeFlowAnalyzerConfig) : ℤ := cfg.tfiWindow * nsPerMs
def velocitySpan (cfg : TradeFlowAnalyzerConfig) : ℤ := cfg.velocityWindow * nsPerMs

/-- What the analyzer holds of the trades since the last reset. -/
structure Windowed (cfg : TradeFlowAnalyzerConfig) (a : TradeFlowAnalyzer)
    (trades : List TradeEvent) : Prop where
  config : a.cfg = cfg
  window : Shows TradeEvent.ts (tfiSpan cfg) trades a.window
  velocity : Shows id (velocitySpan cfg) (trades.map TradeEvent.ts) a.velocityWindow
  cvd : a.cvd = (trades.map signedVolume).sum

/-- What a trade's result says about the trades since the last reset, itself included. -/
structure Exact (cfg : TradeFlowAnalyzerConfig) (trades : List TradeEvent) (e : TradeEvent)
    (a : TradeFlowAnalyzer) (r : TfiResult) : Prop where
  window : a.window = trades.filter fun t => decide (e.ts - tfiSpan cfg ≤ t.ts)
  velocity : r.velocity = (trades.filter fun t => decide (e.ts - velocitySpan cfg ≤ t.ts)).length
  cvd : r.cvd = (trades.map signedVolume).sum ∧ a.cvd = r.cvd
  tfi : r.tfi = imbalance a.window
  bounded : -1 ≤ r.tfi ∧ r.tfi ≤ 1
  long : a.vote = .long ↔ cfg.signalThreshold < r.tfi
  short : a.vote = .short ↔ r.tfi < -cfg.signalThreshold

section Calls
variable {calls : List FlowCall}

theorem since_reset_snoc (c : FlowCall) :
    sinceReset (calls ++ [c]) = afterCall (sinceReset calls) c := by
  simp [sinceReset]

theorem since_reset_sublist (calls : List FlowCall) :
    (sinceReset calls).Sublist (allTrades calls) := by
  induction calls using List.reverseRecOn with
  | nil => exact List.Sublist.refl _
  | append_singleton calls c ih =>
    rw [since_reset_snoc, allTrades, List.filterMap_append]
    cases c with
    | trade e => exact ih.append_right [e]
    | reset => exact List.nil_sublist _

end Calls

section Trade
variable {cfg : TradeFlowAnalyzerConfig} {a : TradeFlowAnalyzer} {trades : List TradeEvent}
  {e : TradeEvent}

theorem trade_effect (a : TradeFlowAnalyzer) (e : TradeEvent) :
    (a.onTrade e).1.cfg = a.cfg ∧
      (a.onTrade e).1.window = trim TradeEvent.ts (e.ts - tfiSpan a.cfg) a.window ++ [e] ∧
      (a.onTrade e).1.velocityWindow = trim id (e.ts - velocitySpan a.cfg) a.velocityWindow ++ [e.ts] ∧
      (a.onTrade e).1.cvd = a.cvd + signedVolume e :=
  ⟨rfl, rfl, rfl, rfl⟩

theorem trade_result (a : TradeFlowAnalyzer) (e : TradeEvent) :
    (a.onTrade e).2.tfi = (a.onTrade e).1.normalizedTfi ∧
      (a.onTrade e).2.velocity = (a.onTrade e).1.velocityWindow.length ∧
      (a.onTrade e).2.cvd = (a.onTrade e).1.cvd :=
  ⟨rfl, rfl, rfl⟩

theorem times_in_order (ordered : InOrder TradeEvent.ts (trades ++ [e])) :
    InOrder id (trades.map TradeEvent.ts ++ [e.ts]) := by
  have mapped : InOrder id ((trades ++ [e]).map TradeEvent.ts) := List.pairwise_map.mpr ordered
  simpa using mapped

theorem windowed_trade (windowed : Windowed cfg a trades)
    (ordered : InOrder TradeEvent.ts (trades ++ [e])) :
    Windowed cfg (a.onTrade e).1 (trades ++ [e]) := by
  obtain ⟨config, window, velocity, cvd⟩ := trade_effect a e
  rw [windowed.config] at window velocity
  constructor
  · rw [config, windowed.config]
  · rw [window]
    exact shows_push windowed.window ordered
  · rw [velocity, List.map_append]
    exact shows_push windowed.velocity (times_in_order ordered)
  · rw [cvd, windowed.cvd, List.map_append, List.sum_append]
    simp

theorem windowed_run {calls : List FlowCall} (ordered : InOrder TradeEvent.ts (allTrades calls)) :
    Windowed cfg (run flowStep (.init cfg) calls) (sinceReset calls) := by
  induction calls using List.reverseRecOn with
  | nil => exact ⟨rfl, shows_nothing, shows_nothing, rfl⟩
  | append_singleton calls c ih =>
    have split : allTrades (calls ++ [c]) = allTrades calls ++ allTrades [c] := List.filterMap_append
    have before : InOrder TradeEvent.ts (allTrades calls) := by
      rw [split] at ordered
      exact (List.pairwise_append.mp ordered).1
    have held := ih before
    rw [run_append]
    cases c with
    | trade e =>
      have latest := ordered.sublist (since_reset_sublist _)
      rw [since_reset_snoc] at latest ⊢
      exact windowed_trade held latest
    | reset =>
      rw [since_reset_snoc]
      exact ⟨held.config, shows_nothing, shows_nothing, rfl⟩

theorem side_volume_nonneg (positive : ∀ t ∈ trades, 0 ≤ t.volume) (isBuy : Bool) :
    0 ≤ sideVolume isBuy trades := by
  apply List.sum_nonneg
  intro volume member
  obtain ⟨t, inside, rfl⟩ := List.mem_map.mp member
  exact positive t (List.mem_filter.mp inside).1

theorem imbalance_bounded (positive : ∀ t ∈ trades, 0 ≤ t.volume) :
    -1 ≤ imbalance trades ∧ imbalance trades ≤ 1 := by
  have buy := side_volume_nonneg positive true
  have sell := side_volume_nonneg positive false
  unfold imbalance
  dsimp only
  split_ifs with small
  · norm_num
  · have total : 0 < sideVolume true trades + sideVolume false trades :=
      lt_of_lt_of_le (by norm_num) (not_lt.mp small)
    rw [le_div_iff₀ total, div_le_iff₀ total]
    constructor <;> linarith

theorem vote_iff (a : TradeFlowAnalyzer) (threshold : 0 ≤ a.cfg.signalThreshold) :
    (a.vote = .long ↔ a.cfg.signalThreshold < a.normalizedTfi) ∧
      (a.vote = .short ↔ a.normalizedTfi < -a.cfg.signalThreshold) := by
  unfold TradeFlowAnalyzer.vote
  dsimp only
  split_ifs with above below
  · constructor
    · simp [above]
    · simp only [false_iff, not_lt]
      linarith
  · constructor
    · simp [above]
    · simp [below]
  · constructor
    · simp [above]
    · simp [below]

end Trade

/-- Every trade of an ordered sequence, with resets anywhere, finds both windows exact. -/
theorem trade_windows_exact {cfg : TradeFlowAnalyzerConfig} (tfi : 0 ≤ cfg.tfiWindow)
    (velocity : 0 ≤ cfg.velocityWindow) (threshold : 0 ≤ cfg.signalThreshold)
    (calls : List FlowCall) (e : TradeEvent)
    (ordered : (allTrades (calls ++ [.trade e])).Pairwise fun t u => t.ts ≤ u.ts)
    (volumes : ∀ t ∈ allTrades (calls ++ [.trade e]), 0 ≤ t.volume) :
    let traded := (run flowStep (.init cfg) calls).onTrade e
    Exact cfg (sinceReset (calls ++ [.trade e])) e traded.1 traded.2 := by
  intro traded
  have trades : sinceReset (calls ++ [.trade e]) = sinceReset calls ++ [e] := since_reset_snoc _
  have sublist := since_reset_sublist (calls ++ [.trade e])
  rw [trades] at sublist ⊢
  have latest : InOrder TradeEvent.ts (sinceReset calls ++ [e]) := ordered.sublist sublist
  have before : InOrder TradeEvent.ts (allTrades calls) := by
    rw [allTrades, List.filterMap_append] at ordered
    exact (List.pairwise_append.mp ordered).1
  have windowed : Windowed cfg _ _ := windowed_run before
  have next := windowed_trade windowed latest
  have same : traded = (run flowStep (.init cfg) calls).onTrade e := rfl
  generalize run flowStep (.init cfg) calls = a at *
  rw [same]
  obtain ⟨-, window, velocityWindow, -⟩ := trade_effect a e
  obtain ⟨result, count, cvd⟩ := trade_result a e
  rw [windowed.config] at window velocityWindow
  rw [push_shows windowed.window latest (mul_nonneg tfi (by decide))] at window
  have times : trim id (e.ts - velocitySpan cfg) a.velocityWindow ++ [e.ts] =
      since id (e.ts - velocitySpan cfg) ((sinceReset calls).map TradeEvent.ts ++ [e.ts]) :=
    push_shows windowed.velocity (times_in_order latest) (mul_nonneg velocity (by decide))
  rw [times] at velocityWindow
  have shows : (a.onTrade e).1.normalizedTfi = imbalance (a.onTrade e).1.window := rfl
  have config : (a.onTrade e).1.cfg = cfg := windowed.config
  obtain ⟨long, short⟩ := vote_iff (a.onTrade e).1 (by rw [config]; exact threshold)
  rw [config, ← result] at long short
  refine ⟨window, ?_, ⟨by rw [cvd, next.cvd], cvd.symm⟩, result, ?_, long, short⟩
  · have singleton : [e.ts] = [e].map TradeEvent.ts := rfl
    rw [count, velocityWindow, singleton, ← List.map_append, since, List.filter_map, List.length_map]
    rfl
  · rw [result, shows]
    apply imbalance_bounded
    intro t member
    rw [window] at member
    exact volumes t (sublist.subset (List.mem_filter.mp member).1)

def burst (volume : ℚ) (isBuy : Bool) (ts : ℤ) : FlowCall := .trade ⟨100, volume, isBuy, ts * nsPerMs⟩

/-- A trade before the reset, one on the cutoff of the last, and two at one time. -/
def sessionTrades : List FlowCall :=
  [burst 7 true 0, .reset, burst 9 false 999, burst 2 true 1000, burst 1 false 6000]

theorem session_trades_exact :
    let last : TradeEvent := ⟨100, 1, true, 6000 * nsPerMs⟩
    let traded := (run flowStep (.init {}) sessionTrades).onTrade last
    Exact {} (sinceReset (sessionTrades ++ [.trade last])) last traded.1 traded.2 ∧
      traded.2.tfi = 1 / 2 ∧ traded.2.velocity = 2 ∧ traded.1.vote = .long := by
  intro last traded
  exact ⟨trade_windows_exact (by decide) (by decide) (by norm_num) sessionTrades last
    (by decide +kernel) (by decide +kernel), by decide +kernel, by decide +kernel, by decide +kernel⟩

section Prints
variable {cfg : TradeFlowAnalyzerConfig} {calls : List FlowCall} {e : TradeEvent}

def volumesOf (calls : List FlowCall) : List ℚ := (allTrades calls).map TradeEvent.volume

/-- The volumes outlive the session: a reset leaves them as they are. -/
theorem recent_run (cfg : TradeFlowAnalyzerConfig) (calls : List FlowCall) :
    (run flowStep (.init cfg) calls).cfg = cfg ∧
      (run flowStep (.init cfg) calls).recentVolumes = latest cfg.avgVolumePeriod (volumesOf calls) := by
  induction calls using List.reverseRecOn with
  | nil => exact ⟨rfl, List.drop_nil.symm⟩
  | append_singleton calls c ih =>
    obtain ⟨config, recent⟩ := ih
    rw [run_append]
    generalize run flowStep (.init cfg) calls = a at config recent ⊢
    cases c with
    | reset =>
      refine ⟨config, recent.trans ?_⟩
      simp [volumesOf, allTrades]
    | trade e =>
      have volumes : volumesOf (calls ++ [.trade e]) = volumesOf calls ++ [e.volume] := by
        simp [volumesOf, allTrades]
      refine ⟨config, ?_⟩
      rw [volumes, latest_snoc, ← recent, ← config]
      rfl

/-- The mean of the last volumes; 1 for a period of none. -/
def meanVolume (period : ℕ) (volumes : List ℚ) : ℚ :=
  if (latest period volumes).isEmpty then 1
  else (latest period volumes).sum / (latest period volumes).length

theorem print_iff (cfg : TradeFlowAnalyzerConfig) (calls : List FlowCall) (e : TradeEvent) :
    ((run flowStep (.init cfg) calls).onTrade e).2.largePrint = true ↔
      meanVolume cfg.avgVolumePeriod (volumesOf (calls ++ [.trade e])) * cfg.largePrintMult < e.volume := by
  obtain ⟨config, recent⟩ := recent_run cfg (calls ++ [.trade e])
  rw [run_append] at config recent
  have average : ((run flowStep (.init cfg) calls).onTrade e).1.avgVolume =
      meanVolume cfg.avgVolumePeriod (volumesOf (calls ++ [.trade e])) := by
    rw [meanVolume, ← recent]
    rfl
  have multiple : ((run flowStep (.init cfg) calls).onTrade e).1.cfg.largePrintMult = cfg.largePrintMult :=
    congrArg TradeFlowAnalyzerConfig.largePrintMult config
  rw [← average, ← multiple]
  exact decide_eq_true_iff

/-- A volume is at most the sum of those it is counted with. -/
theorem last_le_mean {period : ℕ} {volumes : List ℚ} {volume multiple : ℚ}
    (positive : ∀ v ∈ volumes ++ [volume], 0 ≤ v) (some_ : 0 < period)
    (few : (latest period (volumes ++ [volume])).length ≤ multiple) :
    volume ≤ meanVolume period (volumes ++ [volume]) * multiple := by
  have counted : volume ∈ latest period (volumes ++ [volume]) := by
    have before : (volumes ++ [volume]).length - period ≤ volumes.length := by
      rw [List.length_append, List.length_singleton]
      omega
    rw [latest, List.drop_append_of_le_length before]
    exact List.mem_append_right _ (List.mem_singleton_self volume)
  have kept : ∀ v ∈ latest period (volumes ++ [volume]), 0 ≤ v :=
    fun v member => positive v (List.mem_of_mem_drop member)
  have total : volume ≤ (latest period (volumes ++ [volume])).sum := List.single_le_sum kept volume counted
  have nonempty : latest period (volumes ++ [volume]) ≠ [] := List.ne_nil_of_mem counted
  have count : (0 : ℚ) < (latest period (volumes ++ [volume])).length := by
    exact_mod_cast List.length_pos_iff.mpr nonempty
  have sum : 0 ≤ (latest period (volumes ++ [volume])).sum := List.sum_nonneg kept
  rw [meanVolume, if_neg (by simpa using nonempty)]
  calc volume ≤ (latest period (volumes ++ [volume])).sum := total
    _ = (latest period (volumes ++ [volume])).sum / (latest period (volumes ++ [volume])).length *
        (latest period (volumes ++ [volume])).length := (div_mul_cancel₀ _ count.ne').symm
    _ ≤ _ := mul_le_mul_of_nonneg_left few (div_nonneg sum count.le)

end Prints

end FinamTradeWindows
