import FinamTradebot.OrderClient
import FinamTradebot.StrategyRunner

/-!
tests/backtest: the bars of a CSV file and the runner that drives a strategy over them.
The runner is generic in the strategy, of which it uses `on_bar` alone; the result of a
run is built next to the runner's own members. As elsewhere a price text is read by the
decimal grammar, and log lines are left out.
-/
namespace FinamBacktest
open FinamInterfaces FinamOrderBook FinamConfluence FinamOrderClient

inductive ExitReason where
  | takeProfit | stopLoss | forceClose
  deriving DecidableEq, Repr

structure Trade where
  entryDate : String
  exitDate : String
  entryPrice : ℚ
  exitPrice : ℚ
  direction : ℤ
  pnlTicks : ℚ
  reason : ExitReason
  deriving DecidableEq, Repr

structure BacktestResult where
  totalBars : ℕ := 0
  totalTrades : ℕ := 0
  wins : ℕ := 0
  losses : ℕ := 0
  winRate : ℚ := 0
  totalPnlTicks : ℚ := 0
  maxWin : ℚ := 0
  maxLoss : ℚ := 0
  maxDrawdown : ℚ := 0
  profitFactor : ℚ := 0
  trades : List Trade := []
  deriving DecidableEq, Repr

section Csv

/-- What successive calls of `getline` read: the pieces between the delimiters, the one
    behind the last only if there is any of it. -/
def getlines (delim : Char) (text : String) : List String :=
  let pieces := (text.toList.splitOn delim).map String.ofList
  if pieces.getLast? = some "" then pieces.dropLast else pieces

/-- `std::stod` throws for a value below the normal numbers as well. -/
def stodNormal (text : String) : Option ℚ :=
  (stod text).filter fun x => decide (x = 0 ∨ 1 / 2 ^ 1022 ≤ |x|)

/-- `none` where a field is missing or one of the conversions throws. -/
def parseLine (line : String) : Option Bar :=
  match getlines ',' line with
  | date :: o :: h :: l :: c :: v :: _ => do
    return {
      symbol := ⟨"", ""⟩
      timeframe := "D1"
      opening := ← stodNormal o
      high := ← stodNormal h
      low := ← stodNormal l
      close := ← stodNormal c
      volume := ← stol v
      ts := 0
      date := date }
  | _ => none

/-- `none` is a file that cannot be opened. -/
def loadCsv (file : Option String) : List Bar :=
  match file with
  | none => []
  | some text => ((getlines '\n' text).tail.filter (· ≠ "")).filterMap parseLine

end Csv

structure BacktestConfig where
  slTicks : ℚ := 30
  tpTicks : ℚ := 90
  tickSize : ℚ := 1
  slippage : ℚ := 0
  commission : ℚ := 0

structure BacktestRunner where
  cfg : BacktestConfig
  position : ℤ := 0
  entryPrice : ℚ := 0
  entryDate : String := ""
  equityPeak : ℚ := 0

/-- The runner's members and the result under construction. -/
structure Books where
  runner : BacktestRunner
  result : BacktestResult

def BacktestRunner.slip (r : BacktestRunner) : ℚ := r.cfg.slippage * r.cfg.tickSize

def BacktestRunner.stopLevel (r : BacktestRunner) : ℚ :=
  if 0 < r.position then r.entryPrice - r.cfg.slTicks * r.cfg.tickSize
  else r.entryPrice + r.cfg.slTicks * r.cfg.tickSize

def BacktestRunner.takeLevel (r : BacktestRunner) : ℚ :=
  if 0 < r.position then r.entryPrice + r.cfg.tpTicks * r.cfg.tickSize
  else r.entryPrice - r.cfg.tpTicks * r.cfg.tickSize

def Books.closePosition (b : Books) (price : ℚ) (bar : Bar) (reason : ExitReason) : Books :=
  let r := b.runner
  let ep := price + (if 0 < r.position then -r.slip else r.slip)
  let pnl := (ep - r.entryPrice) / r.cfg.tickSize * r.position - r.cfg.commission
  let total := b.result.totalPnlTicks + pnl
  let peak := max r.equityPeak total
  let trade : Trade :=
    { entryDate := r.entryDate
      exitDate := bar.date
      entryPrice := r.entryPrice
      exitPrice := ep
      direction := r.position
      pnlTicks := pnl
      reason := reason }
  { runner := { r with position := 0, entryPrice := 0, equityPeak := peak }
    result := { b.result with
      totalPnlTicks := total
      wins := if 0 < pnl then b.result.wins + 1 else b.result.wins
      losses := if 0 < pnl then b.result.losses else b.result.losses + 1
      maxWin := max b.result.maxWin pnl
      maxLoss := min b.result.maxLoss pnl
      maxDrawdown := max b.result.maxDrawdown (peak - total)
      trades := b.result.trades ++ [trade] } }

def Books.checkExit (b : Books) (bar : Bar) : Books :=
  let sl := b.runner.stopLevel
  let tp := b.runner.takeLevel
  if 0 < b.runner.position ∧ bar.low ≤ sl then b.closePosition sl bar .stopLoss
  else if 0 < b.runner.position ∧ tp ≤ bar.high then b.closePosition tp bar .takeProfit
  else if b.runner.position < 0 ∧ sl ≤ bar.high then b.closePosition sl bar .stopLoss
  else if b.runner.position < 0 ∧ bar.low ≤ tp then b.closePosition tp bar .takeProfit
  else b

def Books.openPosition (b : Books) (bar : Bar) (dir : Direction) : Books :=
  { runner := { b.runner with
      entryPrice := bar.close + (if dir = .buy then b.runner.slip else -b.runner.slip)
      position := if dir = .buy then 1 else -1
      entryDate := bar.date }
    result := { b.result with totalTrades := b.result.totalTrades + 1 } }

def Books.forceClose (b : Books) (bar : Bar) : Books := b.closePosition bar.close bar .forceClose

def BacktestResult.finalize (r : BacktestResult) : BacktestResult :=
  let total := r.wins + r.losses
  let gross := r.trades.foldl (fun (gross : ℚ × ℚ) t =>
    if 0 < t.pnlTicks then (gross.1 + t.pnlTicks, gross.2)
    else (gross.1, gross.2 + |t.pnlTicks|)) (0, 0)
  { r with
    winRate := if 0 < total then (r.wins : ℚ) / total * 100 else 0
    profitFactor := if 0 < gross.2 then gross.1 / gross.2 else 0 }

section Run
variable {σ : Type}

structure Session (σ : Type) where
  strategy : σ
  books : Books

/-- The body of the loop of `run`. -/
def onBacktestBar (onBar : σ → Bar → σ × Signal) (s : Session σ) (bar : Bar) : Session σ :=
  let s : Session σ := { s with strategy := (onBar s.strategy bar).1 }
  let s : Session σ :=
    if s.books.runner.position ≠ 0 then { s with books := s.books.checkExit bar } else s
  if s.books.runner.position = 0 then
    let sig := (onBar s.strategy bar).2
    let s : Session σ := { s with strategy := (onBar s.strategy bar).1 }
    if sig.direction = .buy ∨ sig.direction = .sell then
      { s with books := s.books.openPosition bar sig.direction }
    else s
  else s

/-- A position that is still open has a last bar to be closed at. -/
def Books.closeLast (b : Books) (bars : List Bar) : Books :=
  if b.runner.position ≠ 0 then
    match bars.getLast? with
    | some last => b.forceClose last
    | none => b
  else b

def BacktestRunner.run (onBar : σ → Bar → σ × Signal) (runner : BacktestRunner) (strategy : σ)
    (bars : List Bar) : Session σ :=
  let start : Session σ := ⟨strategy, ⟨runner, { totalBars := bars.length }⟩⟩
  let s := Runs.run (onBacktestBar onBar) start bars
  let books := s.books.closeLast bars
  ⟨s.strategy, { books with result := books.result.finalize }⟩

end Run

/-- The strategy that the `main` of the backtest sets up. -/
def backtestStrategy (libm : Libm) (slTicks tpTicks : ℚ) : ConfluenceStrategy :=
  .init libm
    { symbol := ⟨"Si-6.26", "FORTS"⟩
      baseQty := 1
      slTicks := slTicks
      tpTicks := tpTicks
      tickSize := 1 }

def backtestMain (libm : Libm) (slTicks tpTicks commission : ℚ) (file : Option String) :
    Session ConfluenceStrategy :=
  let runner : BacktestRunner :=
    { cfg :=
        { slTicks := slTicks
          tpTicks := tpTicks
          tickSize := 1
          slippage := 0
          commission := commission } }
  runner.run ConfluenceStrategy.onBar (backtestStrategy libm slTicks tpTicks) (loadCsv file)

end FinamBacktest
