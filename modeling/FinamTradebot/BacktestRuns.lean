import FinamTradebot.Backtest
import FinamTradebot.DailyHistory
import FinamTradebot.EquityCurve
import Mathlib.Algebra.Order.BigOperators.Group.List
import Mathlib.Algebra.Order.Group.Abs

/-!
Runs of the backtest. The books are kept at every close, in whatever order positions are
opened and closed; the indicators never move, since no bar of a CSV file has a symbol.
-/
namespace FinamBacktestRuns
open FinamInterfaces FinamSession FinamConfluence FinamRunner FinamBacktest FinamDailyHistory
open EquityCurve Runs

section Books
variable {cfg : BacktestConfig} {b : Books} {bar : Bar}

def pnls (trades : List Trade) : List ℚ := trades.map Trade.pnlTicks

/-- The profit of a trade by its prices. -/
def Priced (cfg : BacktestConfig) (t : Trade) : Prop :=
  t.pnlTicks = (t.exitPrice - t.entryPrice) / cfg.tickSize * t.direction - cfg.commission

/-- The books at every moment of a run. A position that is open has been counted and has
    no trade yet. -/
structure Kept (cfg : BacktestConfig) (b : Books) : Prop where
  config : b.runner.cfg = cfg
  opened : b.result.totalTrades = b.result.trades.length + if b.runner.position = 0 then 0 else 1
  counted : b.result.trades.length = b.result.wins + b.result.losses
  total : b.result.totalPnlTicks = (pnls b.result.trades).sum
  best : b.result.maxWin = (pnls b.result.trades).foldl max 0
  worst : b.result.maxLoss = (pnls b.result.trades).foldl min 0
  peak : IsGreatest (Levels (pnls b.result.trades)) b.runner.equityPeak
  drawdown : IsGreatest (Drops (pnls b.result.trades)) b.result.maxDrawdown
  priced : ∀ t ∈ b.result.trades, Priced cfg t

theorem kept_start (cfg : BacktestConfig) (bars : ℕ) :
    Kept cfg ⟨{ cfg := cfg }, { totalBars := bars }⟩ :=
  { config := rfl
    opened := rfl
    counted := rfl
    total := rfl
    best := rfl
    worst := rfl
    peak := levels_nil
    drawdown := drops_nil
    priced := fun _ member => by cases member }

/-- What a close does: the trade it books, and every total moved by the trade's profit. -/
structure Closes (b next : Books) (t : Trade) : Prop where
  config : next.runner.cfg = b.runner.cfg
  flat : next.runner.position = 0
  opened : next.result.totalTrades = b.result.totalTrades
  trades : next.result.trades = b.result.trades ++ [t]
  counted : next.result.wins + next.result.losses = b.result.wins + b.result.losses + 1
  total : next.result.totalPnlTicks = b.result.totalPnlTicks + t.pnlTicks
  best : next.result.maxWin = max b.result.maxWin t.pnlTicks
  worst : next.result.maxLoss = min b.result.maxLoss t.pnlTicks
  peak : next.runner.equityPeak = max b.runner.equityPeak next.result.totalPnlTicks
  drawdown : next.result.maxDrawdown =
    max b.result.maxDrawdown (next.runner.equityPeak - next.result.totalPnlTicks)
  priced : Priced b.runner.cfg t

theorem close_effect (b : Books) (price : ℚ) (bar : Bar) (reason : ExitReason) :
    ∃ t, Closes b (b.closePosition price bar reason) t ∧ t.reason = reason ∧
      t.exitDate = bar.date := by
  refine ⟨_, ⟨rfl, rfl, rfl, rfl, ?_, rfl, rfl, rfl, rfl, rfl, rfl⟩, rfl, rfl⟩
  simp only [Books.closePosition]
  split_ifs <;> omega

theorem kept_close (kept : Kept cfg b) (held : b.runner.position ≠ 0) {next : Books} {t : Trade}
    (closes : Closes b next t) : Kept cfg next := by
  have pnl : pnls next.result.trades = pnls b.result.trades ++ [t.pnlTicks] := by
    rw [closes.trades, pnls, pnls, List.map_append, List.map_singleton]
  have total : next.result.totalPnlTicks = (pnls b.result.trades ++ [t.pnlTicks]).sum := by
    rw [closes.total, kept.total, List.sum_append, List.sum_singleton]
  constructor
  · rw [closes.config, kept.config]
  · rw [closes.opened, kept.opened, if_neg held, closes.trades, if_pos closes.flat,
      List.length_append, List.length_singleton]
  · rw [closes.trades, List.length_append, List.length_singleton, kept.counted, closes.counted]
  · rw [pnl, total]
  · rw [pnl, List.foldl_append, ← kept.best, closes.best]
    rfl
  · rw [pnl, List.foldl_append, ← kept.worst, closes.worst]
    rfl
  · rw [pnl, closes.peak, total]
    exact levels_append kept.peak
  · rw [pnl, closes.drawdown, closes.peak, total]
    exact drops_append kept.peak kept.drawdown
  · intro u member
    rw [closes.trades] at member
    rcases List.mem_append.mp member with old | new
    · exact kept.priced u old
    · rw [List.mem_singleton.mp new, ← kept.config]
      exact closes.priced

theorem kept_open (kept : Kept cfg b) (flat : b.runner.position = 0) (bar : Bar) (dir : Direction) :
    Kept cfg (b.openPosition bar dir) := by
  obtain ⟨config, opened, counted, total, best, worst, peak, drawdown, priced⟩ := kept
  refine ⟨config, ?_, counted, total, best, worst, peak, drawdown, priced⟩
  rw [if_pos flat] at opened
  have held : (b.openPosition bar dir).runner.position ≠ 0 := by
    simp only [Books.openPosition]
    split_ifs <;> decide
  rw [if_neg held]
  exact congrArg (· + 1) opened

/-- An exit check leaves the books alone or closes the position. -/
theorem exit_cases (b : Books) (bar : Bar) :
    b.checkExit bar = b ∨
      (b.runner.position ≠ 0 ∧ ∃ price reason, b.checkExit bar = b.closePosition price bar reason) := by
  simp only [Books.checkExit]
  split_ifs with stop take stop' take'
  · exact Or.inr ⟨stop.1.ne', _, _, rfl⟩
  · exact Or.inr ⟨take.1.ne', _, _, rfl⟩
  · exact Or.inr ⟨stop'.1.ne, _, _, rfl⟩
  · exact Or.inr ⟨take'.1.ne, _, _, rfl⟩
  · exact Or.inl rfl

theorem kept_exit (kept : Kept cfg b) (bar : Bar) : Kept cfg (b.checkExit bar) := by
  rcases exit_cases b bar with same | ⟨held, price, reason, closed⟩
  · rw [same]
    exact kept
  · obtain ⟨t, closes, -⟩ := close_effect b price bar reason
    rw [closed]
    exact kept_close kept held closes

section Bars
variable {σ : Type} {onBar : σ → Bar → σ × Signal}

/-- The books after the exit check of a bar. -/
def checked (b : Books) (bar : Bar) : Books :=
  if b.runner.position ≠ 0 then b.checkExit bar else b

/-- What a bar does to the books: the exit check, and an entry if no position is left. -/
theorem bar_cases (onBar : σ → Bar → σ × Signal) (s : Session σ) (bar : Bar) :
    (onBacktestBar onBar s bar).books = checked s.books bar ∨
      ((checked s.books bar).runner.position = 0 ∧
        ∃ dir, (onBacktestBar onBar s bar).books = (checked s.books bar).openPosition bar dir) := by
  by_cases held : s.books.runner.position ≠ 0
  · simp only [onBacktestBar, checked, if_pos held]
    split_ifs with flat signal
    · exact Or.inr ⟨flat, _, rfl⟩
    · exact Or.inl rfl
    · exact Or.inl rfl
  · simp only [onBacktestBar, checked, if_neg held]
    split_ifs with flat signal
    · exact Or.inr ⟨flat, _, rfl⟩
    · exact Or.inl rfl
    · exact Or.inl rfl

theorem kept_bar {s : Session σ} (kept : Kept cfg s.books) (bar : Bar) :
    Kept cfg (onBacktestBar onBar s bar).books := by
  have after : Kept cfg (checked s.books bar) := by
    unfold checked
    split_ifs
    · exact kept_exit kept bar
    · exact kept
  rcases bar_cases onBar s bar with same | ⟨flat, dir, opened⟩
  · rw [same]
    exact after
  · rw [opened]
    exact kept_open after flat bar dir

/-- The bar has reached the stop and the target of the open position. -/
def ReachesBoth (r : BacktestRunner) (bar : Bar) : Prop :=
  if 0 < r.position then bar.low ≤ r.stopLevel ∧ r.takeLevel ≤ bar.high
  else r.stopLevel ≤ bar.high ∧ bar.low ≤ r.takeLevel

/-- The bar books one trade, a stop. -/
def BooksStop (before after : BacktestResult) (bar : Bar) : Prop :=
  ∃ t, after.trades = before.trades ++ [t] ∧ t.reason = .stopLoss ∧ t.exitDate = bar.date

theorem exit_both (held : b.runner.position ≠ 0) (both : ReachesBoth b.runner bar) :
    b.checkExit bar = b.closePosition b.runner.stopLevel bar .stopLoss := by
  unfold ReachesBoth at both
  simp only [Books.checkExit]
  by_cases long : 0 < b.runner.position
  · rw [if_pos long] at both
    rw [if_pos ⟨long, both.1⟩]
  · rw [if_neg long] at both
    have short : b.runner.position < 0 := by omega
    rw [if_neg (fun stop => long stop.1), if_neg (fun take => long take.1), if_pos ⟨short, both.1⟩]

theorem both_books_stop (s : Session σ) (held : s.books.runner.position ≠ 0)
    (both : ReachesBoth s.books.runner bar) :
    BooksStop s.books.result (onBacktestBar onBar s bar).books.result bar := by
  obtain ⟨t, closes, reason, date⟩ := close_effect s.books s.books.runner.stopLevel bar .stopLoss
  have exited : checked s.books bar =
      s.books.closePosition s.books.runner.stopLevel bar .stopLoss := by
    rw [checked, if_pos held, exit_both held both]
  refine ⟨t, ?_, reason, date⟩
  rw [← closes.trades, ← exited]
  rcases bar_cases onBar s bar with same | ⟨-, dir, opened⟩
  · rw [same]
  · rw [opened]
    rfl

end Bars

def grossWin (trades : List Trade) : ℚ := ((pnls trades).filter fun x => decide (0 < x)).sum

def grossLoss (trades : List Trade) : ℚ :=
  (((pnls trades).filter fun x => !decide (0 < x)).map fun x => |x|).sum

theorem gross_fold (trades : List Trade) : ∀ win loss : ℚ,
    trades.foldl (fun (gross : ℚ × ℚ) t =>
      if 0 < t.pnlTicks then (gross.1 + t.pnlTicks, gross.2)
      else (gross.1, gross.2 + |t.pnlTicks|)) (win, loss) =
        (win + grossWin trades, loss + grossLoss trades) := by
  induction trades with
  | nil =>
    intro win loss
    simp [grossWin, grossLoss, pnls]
  | cons t rest ih =>
    intro win loss
    rw [List.foldl_cons]
    by_cases wins : 0 < t.pnlTicks
    · rw [if_pos wins, ih]
      simp [grossWin, grossLoss, pnls, wins, add_assoc]
    · rw [if_neg wins, ih]
      simp [grossWin, grossLoss, pnls, wins, add_assoc]

theorem gross_loss_nonneg (trades : List Trade) : 0 ≤ grossLoss trades := by
  apply List.sum_nonneg
  intro x member
  obtain ⟨y, -, rfl⟩ := List.mem_map.mp member
  exact abs_nonneg y

/-- The books at the end of a run, against the list of its trades. -/
structure Balanced (cfg : BacktestConfig) (r : BacktestResult) : Prop where
  counted : r.totalTrades = r.trades.length ∧ r.trades.length = r.wins + r.losses
  total : r.totalPnlTicks = (pnls r.trades).sum
  best : r.maxWin = (pnls r.trades).foldl max 0
  worst : r.maxLoss = (pnls r.trades).foldl min 0
  drawdown : IsGreatest (Drops (pnls r.trades)) r.maxDrawdown
  factor : r.profitFactor =
    if grossLoss r.trades = 0 then 0 else grossWin r.trades / grossLoss r.trades
  priced : ∀ t ∈ r.trades, Priced cfg t

theorem balanced_finalize (kept : Kept cfg b) (flat : b.runner.position = 0) :
    Balanced cfg b.result.finalize := by
  have opened := kept.opened
  rw [if_pos flat, add_zero] at opened
  refine ⟨⟨opened, kept.counted⟩, kept.total, kept.best, kept.worst, kept.drawdown, ?_, kept.priced⟩
  have fold := gross_fold b.result.trades 0 0
  have sign := gross_loss_nonneg b.result.trades
  simp only [BacktestResult.finalize, fold, zero_add]
  split_ifs with loss none none
  · exact absurd none loss.ne'
  · rfl
  · rfl
  · exact absurd (lt_of_le_of_ne sign (Ne.symm none)) loss

theorem closed_last (kept : Kept cfg b) {bars : List Bar}
    (some_ : b.runner.position ≠ 0 → bars ≠ []) :
    Kept cfg (b.closeLast bars) ∧ (b.closeLast bars).runner.position = 0 := by
  unfold Books.closeLast
  split_ifs with held
  · rw [List.getLast?_eq_some_getLast (some_ held)]
    obtain ⟨t, closes, -⟩ := close_effect b (bars.getLast (some_ held)).close
      (bars.getLast (some_ held)) .forceClose
    exact ⟨kept_close kept held closes, closes.flat⟩
  · exact ⟨kept, not_not.mp held⟩

/-- For every strategy, that is for every sequence of entries: the books of a run balance,
    and a bar that finds a position and reaches both its levels books a stop. -/
theorem backtest_books_balance {σ : Type} (onBar : σ → Bar → σ × Signal) (strategy : σ)
    (cfg : BacktestConfig) (bars : List Bar) :
    let start : Session σ := ⟨strategy, ⟨{ cfg := cfg }, { totalBars := bars.length }⟩⟩
    Balanced cfg (BacktestRunner.run onBar { cfg := cfg } strategy bars).books.result ∧
      ∀ before bar after, bars = before ++ bar :: after →
        let s := run (onBacktestBar onBar) start before
        s.books.runner.position ≠ 0 → ReachesBoth s.books.runner bar →
          BooksStop s.books.result (onBacktestBar onBar s bar).books.result bar := by
  intro start
  have kept : Kept cfg (run (onBacktestBar onBar) start bars).books :=
    run_invariant (I := fun s : Session σ => Kept cfg s.books) (fun _ bar holds => kept_bar holds bar)
      bars (kept_start cfg bars.length)
  constructor
  · have some_ : (run (onBacktestBar onBar) start bars).books.runner.position ≠ 0 → bars ≠ [] := by
      rintro held rfl
      exact held rfl
    obtain ⟨closed, flat⟩ := closed_last kept some_
    exact balanced_finalize closed flat
  · intro before bar after split s held both
    exact both_books_stop s held both

/-- A strategy that buys at every bar. -/
def alwaysBuy (_ : Unit) (_ : Bar) : Unit × Signal :=
  ((), { symbol := ⟨"", ""⟩, direction := .buy })

def dayBar (high low close : ℚ) (date : String) : Bar :=
  { symbol := ⟨"", ""⟩, timeframe := "D1", opening := close, high := high, low := low
    close := close, ts := 0, date := date }

/-- Bought at 100, and the next day goes through 70 and 190. -/
theorem wide_day_stopped :
    let s := run (onBacktestBar alwaysBuy) ⟨(), ⟨{ cfg := {} }, { totalBars := 2 }⟩⟩
      [dayBar 101 99 100 "2026-01-05"]
    BooksStop s.books.result
      (onBacktestBar alwaysBuy s (dayBar 200 60 150 "2026-01-06")).books.result
      (dayBar 200 60 150 "2026-01-06") := by
  have books := (backtest_books_balance alwaysBuy () {}
    [dayBar 101 99 100 "2026-01-05", dayBar 200 60 150 "2026-01-06"]).2
  refine books [dayBar 101 99 100 "2026-01-05"] _ [] rfl (by decide +kernel) ?_
  unfold ReachesBoth
  decide +kernel

end Books

section Indicators

/-- All that `on_daily_bar` writes. -/
structure SameIndicators (a b : SessionContext) : Prop where
  ranges : a.dailyRanges = b.dailyRanges
  idx : a.dailyIdx = b.dailyIdx
  count : a.dailyCount = b.dailyCount
  atr : a.atr = b.atr
  nr7 : a.nr7Confirmed = b.nr7Confirmed

theorem parsed_symbol {line : String} {bar : Bar} (parsed : parseLine line = some bar) :
    bar.symbol = ⟨"", ""⟩ := by
  unfold parseLine at parsed
  split at parsed
  · simp only [Option.bind_eq_bind, Option.bind_eq_some_iff, Option.pure_def,
      Option.some.injEq] at parsed
    obtain ⟨o, -, h, -, l, -, c, -, v, -, rfl⟩ := parsed
    rfl
  · cases parsed

theorem loaded_symbol (file : Option String) : ∀ bar ∈ loadCsv file, bar.symbol = ⟨"", ""⟩ := by
  intro bar member
  cases file with
  | none => cases member
  | some text =>
    obtain ⟨line, -, parsed⟩ := List.mem_filterMap.mp member
    exact parsed_symbol parsed

theorem foreign_bar {s : ConfluenceStrategy} {bar : Bar} (foreign : bar.symbol ≠ s.cfg.symbol) :
    (s.onBar bar).1 = s := by
  rw [ConfluenceStrategy.onBar, if_pos foreign]

theorem foreign_step {s : Session ConfluenceStrategy} {bar : Bar}
    (foreign : bar.symbol ≠ s.strategy.cfg.symbol) :
    (onBacktestBar ConfluenceStrategy.onBar s bar).strategy = s.strategy := by
  have still := foreign_bar foreign
  simp only [onBacktestBar, still]
  split_ifs <;> simp [still]

/-- Bars of another symbol leave the strategy as it is, however often they are passed. -/
theorem foreign_run {s : Session ConfluenceStrategy} {bars : List Bar}
    (foreign : ∀ bar ∈ bars, bar.symbol ≠ s.strategy.cfg.symbol) :
    (run (onBacktestBar ConfluenceStrategy.onBar) s bars).strategy = s.strategy := by
  induction bars generalizing s with
  | nil => rfl
  | cons bar rest ih =>
    have same := foreign_step (foreign bar List.mem_cons_self)
    have others : ∀ other ∈ rest, other.symbol ≠
        (onBacktestBar ConfluenceStrategy.onBar s bar).strategy.cfg.symbol := by
      intro other member
      rw [same]
      exact foreign other (List.mem_cons_of_mem bar member)
    rw [run, ih others, same]

theorem backtest_strategy_unmoved (libm : FinamOrderBook.Libm) (slTicks tpTicks commission : ℚ)
    (file : Option String) : (backtestMain libm slTicks tpTicks commission file).strategy =
      backtestStrategy libm slTicks tpTicks := by
  apply foreign_run
  intro bar member
  rw [loaded_symbol file bar member]
  change (⟨"", ""⟩ : Symbol) ≠ ⟨"Si-6.26", "FORTS"⟩
  decide

/-- `load_history` passes every bar once: it comes back under the strategy's own symbol. -/
theorem history_once (libm : FinamOrderBook.Libm) (cfg : ConfluenceConfig) (bars : List Bar) :
    (loadHistory (.init libm cfg) cfg.symbol (.ok bars)).sessionCtx =
      run SessionContext.onDailyBar (.init cfg.sessionCfg) bars := by
  let stamped (bar : Bar) : Bar := { bar with symbol := cfg.symbol, timeframe := "D1" }
  have daily : DailyBars (ConfluenceStrategy.init libm cfg).cfg.symbol (bars.map stamped) := by
    intro bar member
    obtain ⟨sent, -, rfl⟩ := List.mem_map.mp member
    exact ⟨rfl, rfl⟩
  have fed := feed_daily daily
  rw [feedDaily, run_eq_foldl] at fed
  have same : (loadHistory (.init libm cfg) cfg.symbol (.ok bars)).sessionCtx =
      run SessionContext.onDailyBar (.init cfg.sessionCfg) (bars.map stamped) := fed
  rw [same, run_eq_foldl, run_eq_foldl, List.foldl_map]
  rfl

theorem daily_count_positive {cfg : SessionContextConfig} {bars : List Bar} (received : bars ≠ []) :
    0 < (run SessionContext.onDailyBar (.init cfg) bars).dailyCount := by
  have recorded := (recorded_run cfg bars).count
  have length : 0 < bars.length := List.length_pos_iff.mpr received
  rw [recorded, List.length_reverse, List.length_map]
  unfold kMaxDailyHistory
  omega

/-- The backtest leaves the indicators where the history load would take them only if
    there is no bar to take them anywhere. -/
theorem backtest_indicators_iff (libm : FinamOrderBook.Libm) (slTicks tpTicks commission : ℚ)
    (file : Option String) :
    let strategy := backtestStrategy libm slTicks tpTicks
    let once := run SessionContext.onDailyBar strategy.sessionCtx (loadCsv file)
    (SameIndicators (backtestMain libm slTicks tpTicks commission file).strategy.sessionCtx once ∧
        SameIndicators (loadHistory strategy strategy.cfg.symbol (.ok (loadCsv file))).sessionCtx once) ↔
      loadCsv file = [] := by
  intro strategy once
  have history : (loadHistory strategy strategy.cfg.symbol (.ok (loadCsv file))).sessionCtx = once :=
    history_once libm strategy.cfg (loadCsv file)
  rw [backtest_strategy_unmoved, history]
  constructor
  · rintro ⟨same, -⟩
    by_contra received
    have moved : 0 < once.dailyCount := daily_count_positive received
    have still : strategy.sessionCtx.dailyCount = once.dailyCount := same.count
    rw [← still] at moved
    exact lt_irrefl _ moved
  · intro empty
    have start : once = strategy.sessionCtx := by
      simp only [once, empty, run]
    rw [start]
    exact ⟨⟨rfl, rfl, rfl, rfl, rfl⟩, ⟨rfl, rfl, rfl, rfl, rfl⟩⟩

/-- One day of a CSV file in the form the script writes. -/
def oneDay : String := "date,open,high,low,close,volume\n2026-01-05,100.0,110.0,90.0,105.0,1000\n"

/-- The range of the day is 20; the backtest's average stays 0. -/
theorem one_day_unseen :
    ¬∃ libm, SameIndicators (backtestMain libm 30 90 0 (some oneDay)).strategy.sessionCtx
      (run SessionContext.onDailyBar (.init {}) (loadCsv (some oneDay))) := by
  rintro ⟨libm, same⟩
  have average := same.atr
  rw [backtest_strategy_unmoved] at average
  have range : (run SessionContext.onDailyBar (.init {}) (loadCsv (some oneDay))).atr = 20 := by
    decide +kernel
  rw [range] at average
  have zero : (backtestStrategy libm 30 90).sessionCtx.atr = 0 := rfl
  rw [zero] at average
  exact absurd average (by decide)

end Indicators

end FinamBacktestRuns
