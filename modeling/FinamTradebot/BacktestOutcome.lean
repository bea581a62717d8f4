import FinamTradebot.BacktestRuns
import FinamTradebot.OrderSizing

/-!
The backtest of the confluence strategy. `on_bar` returns no signal for any bar, so the runner
stays flat and passes every bar to the strategy twice: nothing is traded, and no daily range is
ever below the one before it.
-/
namespace FinamBacktestOutcome
open FinamInterfaces FinamSession FinamBacktest FinamConfluence FinamDailyHistory FinamSizing Runs
open FinamOrderBook (Libm)

def feed (s : ConfluenceStrategy) (bar : Bar) : ConfluenceStrategy := (s.onBar bar).1

def doubled {α : Type} (items : List α) : List α := items.flatMap (fun item => [item, item])

theorem doubled_cons {α : Type} (item : α) (rest : List α) :
    doubled (item :: rest) = item :: item :: doubled rest := rfl

section Idle

theorem silent_bar (s : ConfluenceStrategy) (bar : Bar) : (s.onBar bar).2 = noSignal := by
  unfold ConfluenceStrategy.onBar
  split
  · rfl
  · split <;> rfl

theorem idle_bar {s : Session ConfluenceStrategy} (flat : s.books.runner.position = 0) (bar : Bar) :
    onBacktestBar ConfluenceStrategy.onBar s bar = ⟨feed (feed s.strategy bar) bar, s.books⟩ := by
  have quiet : ¬ (noSignal.direction = .buy ∨ noSignal.direction = .sell) := by decide
  simp only [onBacktestBar, flat, silent_bar, quiet, ne_eq, not_true_eq_false, ↓reduceIte]
  rfl

theorem idle_run {s : Session ConfluenceStrategy} (flat : s.books.runner.position = 0) (bars : List Bar) :
    run (onBacktestBar ConfluenceStrategy.onBar) s bars = ⟨run feed s.strategy (doubled bars), s.books⟩ := by
  induction bars generalizing s with
  | nil => rfl
  | cons bar rest ih =>
    rw [run, idle_bar flat, doubled_cons]
    exact ih flat

end Idle

section Narrow

def isDaily (symbol : Symbol) (bar : Bar) : Bool :=
  decide (bar.symbol = symbol ∧ detectTimeframe bar = .daily)

theorem feed_indicators (s : ConfluenceStrategy) (bars : List Bar) :
    indicators (run feed s bars) =
      run SessionContext.onDailyBar (indicators s) (bars.filter (isDaily s.cfg.symbol)) := by
  induction bars generalizing s with
  | nil => rfl
  | cons bar rest ih =>
    obtain ⟨ctx, opened, frame⟩ := bar_frame s bar
    have config : (feed s bar).cfg = s.cfg := by simp [feed, frame]
    rw [run, ih, config, feed, bar_indicators, dailyBars]
    by_cases daily : bar.symbol = s.cfg.symbol ∧ detectTimeframe bar = .daily
    · rw [if_pos daily, List.filter_cons_of_pos (by simpa [isDaily] using daily)]
      rfl
    · rw [if_neg daily, List.filter_cons_of_neg (by simpa [isDaily] using daily)]
      rfl

theorem doubled_filter (keep : Bar → Bool) (bars : List Bar) :
    (doubled bars).filter keep = doubled (bars.filter keep) := by
  induction bars with
  | nil => rfl
  | cons bar rest ih =>
    rw [doubled_cons]
    cases kept : keep bar with
    | true =>
      rw [List.filter_cons_of_pos kept, List.filter_cons_of_pos kept, List.filter_cons_of_pos kept, ih]
      rfl
    | false =>
      have gone : ¬ keep bar = true := by simp [kept]
      rw [List.filter_cons_of_neg gone, List.filter_cons_of_neg gone, List.filter_cons_of_neg gone, ih]

/-- The last range has its own copy before it. -/
theorem doubled_narrowest {p : ℕ} {bars : List Bar} (narrow : Narrowest p ((doubled bars).map barRange)) :
    p ≤ 1 := by
  induction bars using List.reverseRecOn with
  | nil => exact narrow.elim
  | append_singleton bars bar _ =>
    by_contra more
    obtain ⟨q, rfl⟩ : ∃ q, p = q + 2 := ⟨p - 2, by omega⟩
    have tail : ((doubled (bars ++ [bar])).map barRange).reverse =
        barRange bar :: barRange bar :: ((doubled bars).map barRange).reverse := by
      simp [doubled]
    rw [Narrowest, tail] at narrow
    exact lt_irrefl _ (narrow.2 (barRange bar) (by simp))

end Narrow

/-- For every list of bars, every configuration and every setting of stop, target, slippage and
    commission the backtest of the confluence strategy ends with the books it began with; its
    strategy has been passed every bar twice, and a narrow day is confirmed for a period of at
    most one only. -/
theorem confluence_backtest_idle (libm : Libm) (cfg : ConfluenceConfig) (costs : BacktestConfig)
    (bars : List Bar) :
    let s := BacktestRunner.run ConfluenceStrategy.onBar { cfg := costs } (.init libm cfg) bars
    s.books = ⟨{ cfg := costs }, { totalBars := bars.length }⟩ ∧
      s.strategy = run feed (.init libm cfg) (doubled bars) ∧
      (s.strategy.sessionCtx.nr7Confirmed = true → cfg.sessionCfg.nr7Period ≤ 1) := by
  intro s
  have whole := idle_run (s := ⟨.init libm cfg, ⟨{ cfg := costs }, { totalBars := bars.length }⟩⟩) rfl bars
  have strategy : s.strategy = run feed (.init libm cfg) (doubled bars) := by
    simp only [s, BacktestRunner.run, whole]
  refine ⟨?_, strategy, ?_⟩
  · simp [s, BacktestRunner.run, whole, Books.closeLast, BacktestResult.finalize]
  · intro confirmed
    have fed := feed_indicators (.init libm cfg) (doubled bars)
    rw [← strategy, doubled_filter] at fed
    have narrow : (indicators s.strategy).nr7Confirmed = true := confirmed
    rw [fed] at narrow
    exact doubled_narrowest ((confirmed_iff cfg.sessionCfg _).mp narrow).2

end FinamBacktestOutcome
