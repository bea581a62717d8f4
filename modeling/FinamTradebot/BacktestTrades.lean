import FinamTradebot.BacktestRuns
import Mathlib.Data.List.Forall2
import Mathlib.Tactic.FieldSimp

/-!
The trades of a backtest against its bars. Each trade is tied to the bar that opened it and
to the bar that closed it; between the two no bar has reached a level, and the spans of
different trades do not overlap. What a trade earns follows from its reason.
-/
namespace FinamBacktestTrades
open FinamInterfaces FinamBacktest FinamBacktestRuns FinamConfluence Runs

/-- The bars, by their place in the list, at which a trade was opened and closed. -/
structure Span where
  entry : ℕ
  exit : ℕ

section Levels
variable (cfg : BacktestConfig) (direction : ℤ) (entryPrice : ℚ)

def slipOf : ℚ := cfg.slippage * cfg.tickSize

def HitsStop (bar : Bar) : Prop :=
  if 0 < direction then bar.low ≤ entryPrice - cfg.slTicks * cfg.tickSize
  else entryPrice + cfg.slTicks * cfg.tickSize ≤ bar.high

def HitsTake (bar : Bar) : Prop :=
  if 0 < direction then entryPrice + cfg.tpTicks * cfg.tickSize ≤ bar.high
  else bar.low ≤ entryPrice - cfg.tpTicks * cfg.tickSize

/-- No bar behind `first` and before `last` has reached a level. -/
def Untouched (bars : List Bar) (first last : ℕ) : Prop :=
  ∀ k bar, first < k → k < last → bars[k]? = some bar →
    ¬HitsStop cfg direction entryPrice bar ∧ ¬HitsTake cfg direction entryPrice bar

/-- The position a bar has opened at its close, to the worse by the slippage. -/
structure Opened (bars : List Bar) (i : ℕ) (date : String) : Prop where
  side : direction = 1 ∨ direction = -1
  bar : ∃ bar, bars[i]? = some bar ∧ date = bar.date ∧ entryPrice = bar.close + direction * slipOf cfg

end Levels

/-- The bar that closes a trade. A stop goes before a target. -/
def ClosedAt (cfg : BacktestConfig) (t : Trade) (bar : Bar) : Prop :=
  match t.reason with
  | .stopLoss => HitsStop cfg t.direction t.entryPrice bar ∧
      t.pnlTicks = -cfg.slTicks - cfg.slippage - cfg.commission
  | .takeProfit => ¬HitsStop cfg t.direction t.entryPrice bar ∧
      HitsTake cfg t.direction t.entryPrice bar ∧
      t.pnlTicks = cfg.tpTicks - cfg.slippage - cfg.commission
  | .forceClose => t.pnlTicks =
      (bar.close - t.entryPrice) / cfg.tickSize * t.direction - cfg.slippage - cfg.commission

/-- A trade and its place among the bars. -/
structure Placed (cfg : BacktestConfig) (bars : List Bar) (x : Span) (t : Trade) : Prop where
  opened : Opened cfg t.direction t.entryPrice bars x.entry t.entryDate
  untouched : Untouched cfg t.direction t.entryPrice bars x.entry x.exit
  closed : ∃ bar, bars[x.exit]? = some bar ∧ t.exitDate = bar.date ∧ ClosedAt cfg t bar
  later : t.reason ≠ .forceClose → x.entry < x.exit
  last : t.reason = .forceClose →
    x.exit + 1 = bars.length ∧ Untouched cfg t.direction t.entryPrice bars x.entry bars.length

section Grown
variable {cfg : BacktestConfig} {bars : List Bar} {direction : ℤ} {entryPrice : ℚ} {i : ℕ}

theorem found_grown {bar next : Bar} (found : bars[i]? = some bar) : (bars ++ [next])[i]? = some bar := by
  rw [List.getElem?_append_left (List.getElem?_eq_some_iff.mp found).1]
  exact found

theorem opened_grown {date : String} (opened : Opened cfg direction entryPrice bars i date) (next : Bar) :
    Opened cfg direction entryPrice (bars ++ [next]) i date := by
  obtain ⟨side, bar, found, rest⟩ := opened
  exact ⟨side, bar, found_grown found, rest⟩

theorem untouched_grown {last : ℕ} (untouched : Untouched cfg direction entryPrice bars i last)
    (inside : last ≤ bars.length) (next : Bar) :
    Untouched cfg direction entryPrice (bars ++ [next]) i last := by
  intro k bar after before found
  rw [List.getElem?_append_left (by omega)] at found
  exact untouched k bar after before found

/-- A bar that reaches no level leaves a position untouched for one bar more. -/
theorem untouched_snoc (untouched : Untouched cfg direction entryPrice bars i bars.length) {next : Bar}
    (quiet : ¬HitsStop cfg direction entryPrice next ∧ ¬HitsTake cfg direction entryPrice next) :
    Untouched cfg direction entryPrice (bars ++ [next]) i (bars.length + 1) := by
  intro k bar after before found
  by_cases last : k = bars.length
  · subst last
    rw [List.getElem?_concat_length, Option.some.injEq] at found
    subst found
    exact quiet
  · rw [List.getElem?_append_left (by omega)] at found
    exact untouched k bar after (by omega) found

theorem placed_grown {x : Span} {t : Trade} (placed : Placed cfg bars x t)
    (levelled : t.reason ≠ .forceClose) (next : Bar) : Placed cfg (bars ++ [next]) x t := by
  obtain ⟨opened, untouched, ⟨bar, found, rest⟩, later, -⟩ := placed
  have inside := (List.getElem?_eq_some_iff.mp found).1
  exact ⟨opened_grown opened next, untouched_grown untouched inside.le next,
    ⟨bar, found_grown found, rest⟩, later, fun forced => absurd forced levelled⟩

end Grown

section Closing
variable {b : Books}

theorem exit_levels (held : b.runner.position ≠ 0) (bar : Bar) :
    (HitsStop b.runner.cfg b.runner.position b.runner.entryPrice bar ∧
      b.checkExit bar = b.closePosition b.runner.stopLevel bar .stopLoss) ∨
    (¬HitsStop b.runner.cfg b.runner.position b.runner.entryPrice bar ∧
      HitsTake b.runner.cfg b.runner.position b.runner.entryPrice bar ∧
      b.checkExit bar = b.closePosition b.runner.takeLevel bar .takeProfit) ∨
    (¬HitsStop b.runner.cfg b.runner.position b.runner.entryPrice bar ∧
      ¬HitsTake b.runner.cfg b.runner.position b.runner.entryPrice bar ∧ b.checkExit bar = b) := by
  rcases lt_or_gt_of_ne held with short | long
  · have notLong : ¬0 < b.runner.position := by omega
    simp only [HitsStop, HitsTake, Books.checkExit, BacktestRunner.stopLevel,
      BacktestRunner.takeLevel, notLong, short, if_false, true_and, false_and]
    split_ifs with stop take
    · exact Or.inl ⟨stop, rfl⟩
    · exact Or.inr (Or.inl ⟨stop, take, rfl⟩)
    · exact Or.inr (Or.inr ⟨stop, take, rfl⟩)
  · have notShort : ¬b.runner.position < 0 := by omega
    simp only [HitsStop, HitsTake, Books.checkExit, BacktestRunner.stopLevel,
      BacktestRunner.takeLevel, long, notShort, if_true, true_and, false_and, if_false]
    split_ifs with stop take
    · exact Or.inl ⟨stop, rfl⟩
    · exact Or.inr (Or.inl ⟨stop, take, rfl⟩)
    · exact Or.inr (Or.inr ⟨stop, take, rfl⟩)

section Arithmetic
variable {tick : ℚ} {position : ℤ}

theorem level_ticks (ticked : tick ≠ 0) (side : position = 1 ∨ position = -1) (entry ticks : ℚ) :
    (entry + position * (ticks * tick) - entry) / tick * position = ticks := by
  have unit : (position : ℚ) * position = 1 := by
    rcases side with long | short
    · rw [long]
      norm_num
    · rw [short]
      norm_num
  calc (entry + position * (ticks * tick) - entry) / tick * position
      = (position * position) * (ticks * tick / tick) := by ring
    _ = ticks := by rw [unit, one_mul, mul_div_cancel_right₀ ticks ticked]

end Arithmetic

theorem stop_level_eq {r : BacktestRunner} (side : r.position = 1 ∨ r.position = -1) :
    r.stopLevel = r.entryPrice + r.position * (-r.cfg.slTicks * r.cfg.tickSize) := by
  unfold BacktestRunner.stopLevel
  rcases side with long | short
  · rw [long, if_pos (by decide)]
    push_cast
    ring
  · rw [short, if_neg (by decide)]
    push_cast
    ring

theorem take_level_eq {r : BacktestRunner} (side : r.position = 1 ∨ r.position = -1) :
    r.takeLevel = r.entryPrice + r.position * (r.cfg.tpTicks * r.cfg.tickSize) := by
  unfold BacktestRunner.takeLevel
  rcases side with long | short
  · rw [long, if_pos (by decide)]
    push_cast
    ring
  · rw [short, if_neg (by decide)]
    push_cast
    ring

/-- What a close at `price` earns, per tick and by the direction of the position. -/
theorem close_profit (ticked : b.runner.cfg.tickSize ≠ 0)
    (side : b.runner.position = 1 ∨ b.runner.position = -1) (price : ℚ) (bar : Bar) (reason : ExitReason) :
    ∃ t, (b.closePosition price bar reason).result.trades = b.result.trades ++ [t] ∧
      t.reason = reason ∧ t.exitDate = bar.date ∧ t.entryDate = b.runner.entryDate ∧
      t.entryPrice = b.runner.entryPrice ∧ t.direction = b.runner.position ∧
      t.pnlTicks = (price - b.runner.entryPrice) / b.runner.cfg.tickSize * b.runner.position -
        b.runner.cfg.slippage - b.runner.cfg.commission := by
  refine ⟨_, rfl, rfl, rfl, rfl, rfl, rfl, ?_⟩
  simp only [BacktestRunner.slip]
  rcases side with long | short
  · rw [long, if_pos (by decide)]
    field_simp
    ring
  · rw [short, if_neg (by decide)]
    field_simp
    ring

end Closing

section Run
variable {cfg : BacktestConfig} {seen : List Bar} {b : Books} {spans : List Span}

/-- The position that is open, and the bar that opened it behind all trades. -/
structure Holds (cfg : BacktestConfig) (seen : List Bar) (b : Books) (spans : List Span) (i : ℕ) : Prop where
  inside : i < seen.length
  after : ∀ x ∈ spans, x.exit ≤ i
  opened : Opened cfg b.runner.position b.runner.entryPrice seen i b.runner.entryDate
  untouched : Untouched cfg b.runner.position b.runner.entryPrice seen i seen.length

/-- The books after the bars seen so far. -/
structure Told (cfg : BacktestConfig) (seen : List Bar) (b : Books) (spans : List Span) : Prop where
  config : b.runner.cfg = cfg
  placed : List.Forall₂ (fun x t => Placed cfg seen x t ∧ t.reason ≠ .forceClose) spans b.result.trades
  apart : spans.Pairwise fun x y => x.exit ≤ y.entry
  inside : ∀ x ∈ spans, x.exit < seen.length
  holds : b.runner.position ≠ 0 → ∃ i, Holds cfg seen b spans i

theorem told_start (cfg : BacktestConfig) (bars : ℕ) :
    Told cfg [] ⟨{ cfg := cfg }, { totalBars := bars }⟩ [] :=
  ⟨rfl, .nil, .nil, fun _ member => absurd member List.not_mem_nil, fun held => absurd rfl held⟩

theorem placed_all_grown {trades : List Trade} (next : Bar)
    (placed : List.Forall₂ (fun x t => Placed cfg seen x t ∧ t.reason ≠ .forceClose) spans trades) :
    List.Forall₂ (fun x t => Placed cfg (seen ++ [next]) x t ∧ t.reason ≠ .forceClose) spans trades :=
  placed.imp fun _ _ here => ⟨placed_grown here.1 here.2 next, here.2⟩

theorem apart_snoc {i exit : ℕ} (apart : spans.Pairwise fun x y => x.exit ≤ y.entry)
    (after : ∀ x ∈ spans, x.exit ≤ i) : (spans ++ [(⟨i, exit⟩ : Span)]).Pairwise fun x y => x.exit ≤ y.entry := by
  refine List.pairwise_append.mpr ⟨apart, List.pairwise_singleton _ _, ?_⟩
  intro x member y last
  rw [List.mem_singleton.mp last]
  exact after x member

/-- The trade that a close books keeps the entry of the position it ends. -/
theorem close_trade {i : ℕ} (ticked : b.runner.cfg.tickSize ≠ 0) (holds : Holds b.runner.cfg seen b spans i)
    (price : ℚ) (bar : Bar) (reason : ExitReason) :
    ∃ t, (b.closePosition price bar reason).result.trades = b.result.trades ++ [t] ∧
      t.reason = reason ∧ t.exitDate = bar.date ∧
      t.entryPrice = b.runner.entryPrice ∧ t.direction = b.runner.position ∧
      t.pnlTicks = (price - b.runner.entryPrice) / b.runner.cfg.tickSize * b.runner.position -
        b.runner.cfg.slippage - b.runner.cfg.commission ∧
      Opened b.runner.cfg t.direction t.entryPrice seen i t.entryDate ∧
      Untouched b.runner.cfg t.direction t.entryPrice seen i seen.length := by
  obtain ⟨t, trades, kind, exitDate, entryDate, entryPrice, direction, pnl⟩ :=
    close_profit ticked holds.opened.side price bar reason
  refine ⟨t, trades, kind, exitDate, entryPrice, direction, pnl, ?_, ?_⟩
  · rw [entryDate, entryPrice, direction]
    exact holds.opened
  · rw [entryPrice, direction]
    exact holds.untouched

/-- A level that is reached books one more trade and leaves no position. -/
theorem told_close (ticked : cfg.tickSize ≠ 0) (told : Told cfg seen b spans) {i : ℕ}
    (holds : Holds cfg seen b spans i) {next : Bar} {price : ℚ} {reason : ExitReason}
    (levelled : reason ≠ .forceClose)
    (closes : ∀ t : Trade, t.reason = reason → t.entryPrice = b.runner.entryPrice →
      t.direction = b.runner.position →
      t.pnlTicks = (price - b.runner.entryPrice) / cfg.tickSize * b.runner.position -
        cfg.slippage - cfg.commission → ClosedAt cfg t next) :
    Told cfg (seen ++ [next]) (b.closePosition price next reason) (spans ++ [⟨i, seen.length⟩]) := by
  have config := told.config
  subst config
  obtain ⟨t, trades, kind, exitDate, entryPrice, direction, pnl, opened, untouched⟩ :=
    close_trade ticked holds price next reason
  have placed : Placed b.runner.cfg (seen ++ [next]) ⟨i, seen.length⟩ t :=
    { opened := opened_grown opened next
      untouched := untouched_grown untouched le_rfl next
      closed := ⟨next, List.getElem?_concat_length, exitDate, closes t kind entryPrice direction pnl⟩
      later := fun _ => holds.inside
      last := fun forced => absurd (kind.symm.trans forced) levelled }
  refine ⟨rfl, ?_, apart_snoc told.apart holds.after, ?_, fun held => absurd rfl held⟩
  · rw [trades]
    exact List.rel_append (placed_all_grown next told.placed)
      (.cons ⟨placed, fun forced => levelled (kind.symm.trans forced)⟩ .nil)
  · intro x member
    rw [List.length_append, List.length_singleton]
    rcases List.mem_append.mp member with earlier | last
    · have := told.inside x earlier
      omega
    · rw [List.mem_singleton.mp last]
      exact Nat.lt_succ_self _

theorem holds_quiet {i : ℕ} (holds : Holds cfg seen b spans i) {next : Bar}
    (quiet : ¬HitsStop cfg b.runner.position b.runner.entryPrice next ∧
      ¬HitsTake cfg b.runner.position b.runner.entryPrice next) :
    Holds cfg (seen ++ [next]) b spans i := by
  have length : (seen ++ [next]).length = seen.length + 1 := by simp
  refine ⟨?_, holds.after, opened_grown holds.opened next, ?_⟩
  · have := holds.inside
    omega
  · rw [length]
    exact untouched_snoc holds.untouched quiet

theorem told_grown (told : Told cfg seen b spans) (next : Bar)
    (holds : b.runner.position ≠ 0 → ∃ i, Holds cfg (seen ++ [next]) b spans i) :
    Told cfg (seen ++ [next]) b spans := by
  refine ⟨told.config, placed_all_grown next told.placed, told.apart, ?_, holds⟩
  intro x member
  rw [List.length_append]
  exact Nat.lt_add_right _ (told.inside x member)

/-- The exit check of a bar. -/
theorem told_checked (ticked : cfg.tickSize ≠ 0) (told : Told cfg seen b spans) (next : Bar) :
    ∃ spans, Told cfg (seen ++ [next]) (checked b next) spans := by
  by_cases held : b.runner.position ≠ 0
  · obtain ⟨i, holds⟩ := told.holds held
    rw [checked, if_pos held]
    have levels := exit_levels held next
    rw [told.config] at levels
    rcases levels with ⟨stop, eq⟩ | ⟨noStop, take, eq⟩ | ⟨noStop, noTake, eq⟩
    · rw [eq]
      refine ⟨_, told_close ticked told holds (by decide) ?_⟩
      intro t kind entryPrice direction pnl
      rw [ClosedAt, kind, entryPrice, direction]
      refine ⟨stop, ?_⟩
      rw [pnl, stop_level_eq holds.opened.side, told.config, level_ticks ticked holds.opened.side]
    · rw [eq]
      refine ⟨_, told_close ticked told holds (by decide) ?_⟩
      intro t kind entryPrice direction pnl
      rw [ClosedAt, kind, entryPrice, direction]
      refine ⟨noStop, take, ?_⟩
      rw [pnl, take_level_eq holds.opened.side, told.config, level_ticks ticked holds.opened.side]
    · rw [eq]
      exact ⟨spans, told_grown told next fun _ => ⟨i, holds_quiet holds ⟨noStop, noTake⟩⟩⟩
  · rw [checked, if_neg held]
    exact ⟨spans, told_grown told next fun open_ => absurd open_ held⟩

/-- An entry at the close of the last bar seen. -/
theorem told_open {next : Bar} (told : Told cfg (seen ++ [next]) b spans) (dir : Direction) :
    Told cfg (seen ++ [next]) (b.openPosition next dir) spans := by
  refine ⟨told.config, told.placed, told.apart, told.inside, ?_⟩
  have length : (seen ++ [next]).length = seen.length + 1 := by simp
  have config := told.config
  intro _
  refine ⟨seen.length, ?_, ?_, ?_, ?_⟩
  · omega
  · intro x member
    have := told.inside x member
    omega
  · by_cases buys : dir = .buy
    · refine ⟨Or.inl (if_pos buys), next, List.getElem?_concat_length, rfl, ?_⟩
      simp [Books.openPosition, buys, BacktestRunner.slip, slipOf, config]
    · refine ⟨Or.inr (if_neg buys), next, List.getElem?_concat_length, rfl, ?_⟩
      simp [Books.openPosition, buys, BacktestRunner.slip, slipOf, config]
  · intro k bar after before
    omega

variable {σ : Type} {onBar : σ → Bar → σ × Signal}

theorem told_bar (ticked : cfg.tickSize ≠ 0) {s : Session σ} (told : Told cfg seen s.books spans) (next : Bar) :
    ∃ spans, Told cfg (seen ++ [next]) (onBacktestBar onBar s next).books spans := by
  obtain ⟨spans, after⟩ := told_checked ticked told next
  rcases bar_cases onBar s next with same | ⟨-, dir, opened⟩
  · rw [same]
    exact ⟨spans, after⟩
  · rw [opened]
    exact ⟨spans, told_open after dir⟩

theorem told_run (onBar : σ → Bar → σ × Signal) (ticked : cfg.tickSize ≠ 0) (strategy : σ) (count : ℕ) (bars : List Bar) :
    ∃ spans, Told cfg bars
      (run (onBacktestBar onBar) ⟨strategy, ⟨{ cfg := cfg }, { totalBars := count }⟩⟩ bars).books spans := by
  induction bars using List.reverseRecOn with
  | nil => exact ⟨[], told_start cfg count⟩
  | append_singleton bars bar ih =>
    obtain ⟨spans, told⟩ := ih
    rw [run_append]
    exact told_bar ticked told bar

/-- A position left at the end is closed at the last bar. -/
theorem told_last (ticked : cfg.tickSize ≠ 0) {bars : List Bar} (told : Told cfg bars b spans) :
    ∃ spans, List.Forall₂ (Placed cfg bars) spans (b.closeLast bars).result.trades ∧
      spans.Pairwise fun x y => x.exit ≤ y.entry := by
  have placed : List.Forall₂ (Placed cfg bars) spans b.result.trades :=
    told.placed.imp fun _ _ here => here.1
  unfold Books.closeLast
  split_ifs with held
  · obtain ⟨i, holds⟩ := told.holds held
    have some_ : bars ≠ [] := List.length_pos_iff.mp (Nat.zero_lt_of_lt holds.inside)
    rw [List.getLast?_eq_some_getLast some_]
    have config := told.config
    subst config
    obtain ⟨t, trades, kind, exitDate, entryPrice, direction, pnl, opened, untouched⟩ :=
      close_trade ticked holds (bars.getLast some_).close (bars.getLast some_) .forceClose
    have length : bars.length - 1 + 1 = bars.length := Nat.sub_add_cancel (List.length_pos_iff.mpr some_)
    have last : bars[bars.length - 1]? = some (bars.getLast some_) := by
      rw [← List.getLast?_eq_getElem?, List.getLast?_eq_some_getLast some_]
    refine ⟨spans ++ [⟨i, bars.length - 1⟩], ?_, apart_snoc told.apart holds.after⟩
    simp only [Books.forceClose, trades]
    refine List.rel_append placed (.cons ?_ .nil)
    refine ⟨opened, ?_, ⟨_, last, exitDate, ?_⟩, fun levelled => absurd kind levelled, fun _ => ⟨length, untouched⟩⟩
    · intro k bar after before found
      exact untouched k bar after (Nat.lt_of_lt_of_le before (Nat.sub_le _ _)) found
    · rw [ClosedAt, kind, entryPrice, direction]
      exact pnl
  · exact ⟨spans, placed, told.apart⟩

/-- For every strategy and every list of bars: the trades of a backtest are laid along the
    bars one after the other. Each was opened at the close of its first bar and closed at the
    first later bar that reached a level, the stop before the target, or else at the last bar
    of all; its profit is the level's distance less slippage and commission. -/
theorem backtest_trades_follow_bars (onBar : σ → Bar → σ × Signal) (strategy : σ) (cfg : BacktestConfig)
    (ticked : cfg.tickSize ≠ 0) (bars : List Bar) :
    ∃ spans, List.Forall₂ (Placed cfg bars) spans
        (BacktestRunner.run onBar { cfg := cfg } strategy bars).books.result.trades ∧
      spans.Pairwise fun x y => x.exit ≤ y.entry := by
  obtain ⟨spans, told⟩ := told_run onBar ticked strategy bars.length bars
  exact told_last ticked told

/-- Bought at 100, stopped at 70 on the second day, bought again at its close and closed
    there. -/
theorem stopped_and_closed :
    let bars := [dayBar 101 99 100 "2026-01-05", dayBar 200 60 150 "2026-01-06"]
    let trades := (BacktestRunner.run alwaysBuy { cfg := {} } () bars).books.result.trades
    trades.map Trade.pnlTicks = [-30, 0] ∧ ∃ spans, List.Forall₂ (Placed {} bars) spans trades ∧
      spans.Pairwise fun x y => x.exit ≤ y.entry :=
  ⟨by decide +kernel, backtest_trades_follow_bars alwaysBuy () {} (by decide) _⟩

end Run

end FinamBacktestTrades
