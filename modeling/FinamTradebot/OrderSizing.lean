import FinamTradebot.BookReplay
import FinamTradebot.DailyHistory
import FinamTradebot.OrderClient
import Mathlib.Data.Nat.Prime.Basic

/-!
The size of the orders a runner submits. An entry takes the base quantity on a day after a
narrow one and half of it on other days, cut down to a whole number; `validate` refuses what
is left of a base quantity of one. The narrow day is read off the daily bars that the run
has passed to the strategy, through session resets, rollovers and intraday bars.
-/
namespace FinamSizing
open FinamInterfaces FinamSession FinamConfluence FinamRunner FinamDailyHistory FinamOrderClient Runs
open FinamOrderBook (Libm OfiVote)
open FinamBookReplay (truncate_int)

section Indicators
variable (ctx : SessionContext)

/-- A session reset clears what `on_daily_bar` neither reads nor writes. -/
theorem daily_reset (bar : Bar) : (ctx.onDailyBar bar).sessionReset = ctx.sessionReset.onDailyBar bar := by
  have update : ∀ s : SessionContext, ∀ range, (s.updateAtr range).sessionReset =
      s.sessionReset.updateAtr range := by
    intro s range
    exact apply_ite SessionContext.sessionReset _ _ _
  have flag : ∀ s : SessionContext, s.updateNr7.sessionReset = s.sessionReset.updateNr7 := by
    intro s
    exact apply_ite SessionContext.sessionReset _ _ _
  rw [daily_eq, daily_eq, flag, update]
  rfl

theorem finalize_reset (price : ℚ) : (ctx.finalizeOrb price).sessionReset = ctx.sessionReset := by
  simp only [SessionContext.finalizeOrb]
  split_ifs <;> rfl

theorem intraday_reset (bar : Bar) : (ctx.onIntradayBar bar).sessionReset = ctx.sessionReset := by
  simp only [SessionContext.onIntradayBar]
  split_ifs
  · rfl
  · rfl
  · rfl
  · exact finalize_reset ctx bar.close

end Indicators

/-- The indicators of a strategy: its session context as the next reset leaves it. -/
def indicators (s : ConfluenceStrategy) : SessionContext := s.sessionCtx.sessionReset

/-- The reply to a `get_bars` request; a failed one brings no bars. -/
def replied : Result (List Bar) → List Bar
  | .ok bars => bars
  | .error _ => []

/-- The daily bars an action passes to a strategy that trades `symbol`. -/
def dailyBars (symbol : Symbol) : Action → List Bar
  | .bar b => if b.symbol = symbol ∧ detectTimeframe b = .daily then [b] else []
  | .dispatch (.rollover newSymbol) _ history => if newSymbol = symbol then replied history else []
  | .dispatch _ _ _ => []

section Fed
variable {s : ConfluenceStrategy}

theorem open_indicators (ts : ℤ) : indicators (s.handleSessionOpen ts) = indicators s := by
  obtain ⟨opened, eq⟩ := open_frame s ts
  rw [eq, indicators, indicators, after_reset_sessionCtx]
  split <;> rfl

theorem bar_indicators (b : Bar) : indicators (s.onBar b).1 =
    run SessionContext.onDailyBar (indicators s) (dailyBars s.cfg.symbol (.bar b)) := by
  rw [ConfluenceStrategy.onBar, dailyBars]
  by_cases own : b.symbol = s.cfg.symbol
  · rw [if_neg (not_not.mpr own)]
    cases frame : detectTimeframe b with
    | daily =>
      rw [if_pos ⟨own, rfl⟩]
      exact daily_reset s.sessionCtx b
    | intraday =>
      rw [if_neg (by simp)]
      exact (intraday_reset _ b).trans (open_indicators b.ts)
    | unknown =>
      rw [if_neg (by simp)]
      rfl
  · rw [if_pos own, if_neg (fun both => own both.1)]
    rfl

/-- Bars come back from `get_bars` under the symbol and the timeframe that were asked for. -/
theorem history_indicators (symbol : Symbol) (history : Result (List Bar)) :
    indicators (loadHistory s symbol history) = run SessionContext.onDailyBar (indicators s)
      (if symbol = s.cfg.symbol then replied history else []) := by
  cases history with
  | error e => simp [loadHistory, getBars, Except.map, replied, run]
  | ok bars =>
    simp only [loadHistory, getBars, Except.map, replied]
    induction bars generalizing s with
    | nil => simp [run]
    | cons b rest ih =>
      obtain ⟨ctx, frame⟩ := daily_bar_frame s
        (show ({ b with symbol := symbol, timeframe := "D1" } : Bar).timeframe = "D1" from rfl)
      have config : (s.onBar { b with symbol := symbol, timeframe := "D1" }).1.cfg = s.cfg := by
        rw [frame]
      have first := bar_indicators (s := s) { b with symbol := symbol, timeframe := "D1" }
      rw [List.map_cons, List.foldl_cons, ih, first, config]
      by_cases own : symbol = s.cfg.symbol
      · simp only [dailyBars, own, detectTimeframe, true_or, ↓reduceIte, and_self]
        rfl
      · simp only [dailyBars, own, ↓reduceIte, false_and]
        rfl

theorem quote_indicators (q : Quote) : indicators (s.onQuote q).1 = indicators s := by
  by_cases own : q.symbol = s.cfg.symbol
  · rw [indicators, quote_context s own, finalize_reset]
    exact open_indicators q.ts
  · rw [ConfluenceStrategy.onQuote, if_pos own]

end Fed

theorem step_indicators (libm : Libm) (r : StrategyRunner) (a : Action) :
    indicators (r.step libm a).strategy =
      run SessionContext.onDailyBar (indicators r.strategy) (dailyBars r.strategy.cfg.symbol a) := by
  cases a with
  | bar b => exact bar_indicators b
  | dispatch e risk history =>
    cases e with
    | book e =>
      obtain ⟨book, spoof, signalTs, eq⟩ := book_frame libm r.strategy e
      simp only [StrategyRunner.step, StrategyRunner.perform, StrategyRunner.dispatch, eq]
      rfl
    | trade e =>
      obtain ⟨mid, flow, signalTs, eq⟩ := trade_frame r.strategy e
      simp only [StrategyRunner.step, StrategyRunner.perform, StrategyRunner.dispatch, eq]
      rfl
    | quote q => exact quote_indicators (s := r.strategy.updateBbo q.bid q.ask) q
    | order upd =>
      obtain ⟨entry, eq, -⟩ := update_frame r.strategy upd
      simp only [StrategyRunner.step, StrategyRunner.perform, StrategyRunner.dispatch, eq]
      rfl
    | rollover newSymbol =>
      exact history_indicators (s := r.strategy.onSessionOpen) newSymbol history

section Reached
variable (libm : Libm) (cfg : RunnerConfig) (account : String) (history : Result (List Bar))

/-- All daily bars a run has passed to the strategy, in their order. -/
def fedBars (acts : List Action) : List Bar :=
  replied history ++ acts.flatMap (dailyBars cfg.strategy.symbol)

/-- The configuration, the account and the indicators of a runner that was fed these bars. -/
structure Fed (r : StrategyRunner) (bars : List Bar) : Prop where
  config : r.strategy.cfg = cfg.strategy
  client : r.accountId = account
  ranges : indicators r.strategy =
    run SessionContext.onDailyBar (.init cfg.strategy.sessionCfg) bars

theorem reached_fed (acts : List Action) :
    Fed cfg account (.reached libm cfg account history acts) (fedBars cfg history acts) := by
  unfold StrategyRunner.reached
  induction acts using List.reverseRecOn with
  | nil =>
    refine ⟨init_cfg libm cfg account history, rfl, ?_⟩
    have loaded := history_indicators (s := .init libm cfg.strategy) cfg.strategy.symbol history
    rw [if_pos (show cfg.strategy.symbol = (ConfluenceStrategy.init libm cfg.strategy).cfg.symbol from rfl)]
      at loaded
    rw [fedBars, List.flatMap_nil, List.append_nil]
    exact loaded
  | append_singleton acts a ih =>
    rw [run_append]
    have frame := step_frame libm (run (StrategyRunner.step libm) (.init libm cfg account history) acts) a
    refine ⟨frame.cfg.trans ih.config, frame.account.trans ih.client, ?_⟩
    have step := step_indicators libm
      (run (StrategyRunner.step libm) (.init libm cfg account history) acts) a
    rw [ih.ranges, ih.config, ← run_append] at step
    rw [fedBars, List.flatMap_append, ← List.append_assoc, List.flatMap_singleton]
    exact step

end Reached

section Sizes

/-- A period longer than the ring is never confirmed. -/
theorem confirmed_iff (cfg : SessionContextConfig) (bars : List Bar) :
    (run SessionContext.onDailyBar (.init cfg) bars).nr7Confirmed = true ↔
      cfg.nr7Period ≤ 30 ∧ Narrowest cfg.nr7Period (bars.map barRange) := by
  by_cases none : bars = []
  · simp [none, run, SessionContext.init, Narrowest]
  by_cases held : cfg.nr7Period ≤ 30
  · rw [nr7_run held none]
    simp [held]
  · obtain ⟨first, bar, rfl⟩ : ∃ first bar, bars = first ++ [bar] :=
      ⟨_, _, (List.dropLast_append_getLast none).symm⟩
    obtain ⟨s, eq, recorded, config⟩ := run_last cfg first bar
    have count := recorded.count
    have few : s.dailyCount < (s.cfg.nr7Period : ℤ) := by
      rw [config, count]
      unfold kMaxDailyHistory
      omega
    rw [eq, SessionContext.updateNr7, if_pos few]
    simp [held]

theorem truncate_half (n : ℤ) : truncate ((n : ℚ) * (1 / 2)) = n.tdiv 2 := by
  rcases Int.even_or_odd' n with ⟨k, rfl | rfl⟩
  · have half : ((2 * k : ℤ) : ℚ) * (1 / 2) = (k : ℚ) := by
      push_cast
      ring
    rw [half, truncate_int, Int.mul_tdiv_cancel_left k (by decide)]
  · have coprime : Nat.Coprime (2 * k + 1).natAbs (2 : ℤ).natAbs := by
      apply Nat.coprime_two_right.mpr
      exact Int.natAbs_odd.mpr ⟨k, rfl⟩
    have half : ((2 * k + 1 : ℤ) : ℚ) * (1 / 2) = ((2 * k + 1 : ℤ) : ℚ) / ((2 : ℤ) : ℚ) := by
      push_cast
      ring
    rw [half, truncate, Rat.num_div_eq_of_coprime (by decide) coprime,
      Rat.den_div_eq_of_coprime (by decide) coprime]

def entryQuantity (baseQty : ℤ) (narrow : Bool) : ℤ := if narrow then baseQty else baseQty.tdiv 2

theorem build_entry_quantity (s : ConfluenceStrategy) (vote : OfiVote) :
    (s.buildEntry vote).quantity = entryQuantity s.cfg.baseQty s.sessionCtx.nr7Confirmed := by
  simp only [ConfluenceStrategy.buildEntry, SessionContext.sizeMultiplier, entryQuantity]
  split
  · rw [mul_one, truncate_int]
  · exact truncate_half s.cfg.baseQty

end Sizes

section Submits
variable {libm : Libm} {r : StrategyRunner} {isClose : Bool} {req : OrderRequest}

/-- A market order of the runner's account. -/
structure Sized (r : StrategyRunner) (quantity : ℤ) (req : OrderRequest) : Prop where
  client : req.clientId = r.accountId
  market : req.type = .market
  quantity : req.quantity = quantity

theorem entered_sized {s t : ConfluenceStrategy} {sig : Option Signal} {ts : ℤ} {risk : RiskCheck}
    (enter : s.tryEnter ts = (t, sig))
    (submits : Effect.submit isClose req ∈ r.signalEffects risk sig) :
    Sized r (entryQuantity s.cfg.baseQty s.sessionCtx.nr7Confirmed) req := by
  cases sig with
  | none => simp [StrategyRunner.signalEffects] at submits
  | some sig =>
    obtain ⟨-, -, rfl⟩ := try_enter_some enter
    obtain ⟨-, rfl⟩ := submit_effect submits
    exact ⟨rfl, rfl, build_entry_quantity s s.ofiVote⟩

theorem quote_submits_close {q : Quote} {risk : RiskCheck} {history : Result (List Bar)}
    (submits : Effect.submit isClose req ∈ r.effects libm (.dispatch (.quote q) risk history)) :
    isClose = true := by
  have signal : Effect.submit isClose req ∈
      handleSignal r.accountId risk ((r.strategy.updateBbo q.bid q.ask).onQuote q).2 := submits
  by_cases exits : (r.strategy.updateBbo q.bid q.ask).QuoteExits q
  · obtain ⟨reason, eq⟩ := quote_signal_of_exit exits
    rw [eq] at signal
    exact (submit_effect signal).1
  · rw [quote_signal_of_no_exit exits] at signal
    simp [noSignal, handleSignal] at signal

theorem entry_sized {a : Action} (submits : Effect.submit false req ∈ r.effects libm a) :
    Sized r (entryQuantity r.strategy.cfg.baseQty r.strategy.sessionCtx.nr7Confirmed) req := by
  cases a with
  | bar b => simp [StrategyRunner.effects, StrategyRunner.perform] at submits
  | dispatch e risk history =>
    cases e with
    | book e =>
      have sized := entered_sized (r := r)
        (show ConfluenceStrategy.tryEnter _ e.ts = (_, _) from rfl) submits
      exact sized
    | trade e =>
      have sized := entered_sized (r := r)
        (show ConfluenceStrategy.tryEnter _ e.ts = (_, _) from rfl) submits
      exact sized
    | quote q => cases quote_submits_close submits
    | order upd =>
      simp [StrategyRunner.effects, StrategyRunner.perform, StrategyRunner.dispatch] at submits
    | rollover newSymbol =>
      simp [StrategyRunner.effects, StrategyRunner.perform, StrategyRunner.dispatch] at submits

/-- A close takes the whole position, and there is one. -/
theorem close_sized {a : Action} (submits : Effect.submit true req ∈ r.effects libm a) :
    Sized r |r.strategy.position| req ∧ 0 < |r.strategy.position| := by
  rcases submit_cases submits with ⟨-, exits, rfl⟩ | ⟨kind, -⟩
  · refine ⟨⟨rfl, rfl, rfl⟩, abs_pos.mpr ?_⟩
    cases a with
    | bar b => exact exits.elim
    | dispatch e risk history =>
      cases e with
      | quote q => exact exits.2.2.1
      | book | trade | order | rollover => exact exits.elim
  · cases kind

end Submits

section Accepted
variable {r : StrategyRunner} {req : OrderRequest} {quantity : ℤ}

theorem sized_accepted_iff (sized : Sized r quantity req) :
    validate req = none ↔ r.accountId ≠ "" ∧ 0 < quantity := by
  rw [← sized.client, ← sized.quantity]
  unfold validate
  rw [sized.market]
  split_ifs <;> simp_all

theorem half_positive_iff (n : ℤ) : 0 < n.tdiv 2 ↔ 2 ≤ n := by
  rcases le_total 0 n with nonneg | nonpos
  · rw [Int.tdiv_eq_ediv_of_nonneg nonneg]
    omega
  · have positive : (-n).tdiv 2 = -n / 2 := Int.tdiv_eq_ediv_of_nonneg (by omega)
    rw [Int.neg_tdiv] at positive
    omega

theorem entry_positive_iff (baseQty : ℤ) (narrow : Bool) :
    0 < entryQuantity baseQty narrow ↔ 2 ≤ baseQty ∨ (baseQty = 1 ∧ narrow = true) := by
  cases narrow with
  | true =>
    simp only [entryQuantity, ↓reduceIte, and_true]
    omega
  | false => simp [entryQuantity, half_positive_iff]

/-- The orders of any run that `submit` does not refuse: every close, every entry of a base
    quantity of two and more, and of a base quantity of one the entries after a narrow day,
    the latest of the daily bars the run has passed on. -/
theorem submitted_order_accepted_iff (libm : Libm) (cfg : RunnerConfig) (account : String)
    (history : Result (List Bar)) (acts : List Action) (a : Action) (isClose : Bool)
    (req : OrderRequest)
    (submits : .submit isClose req ∈ (StrategyRunner.reached libm cfg account history acts).effects libm a) :
    validate req = none ↔ account ≠ "" ∧ (isClose = true ∨ 2 ≤ cfg.strategy.baseQty ∨
      (cfg.strategy.baseQty = 1 ∧ cfg.strategy.sessionCfg.nr7Period ≤ 30 ∧
        Narrowest cfg.strategy.sessionCfg.nr7Period ((fedBars cfg history acts).map barRange))) := by
  have fed := reached_fed libm cfg account history acts
  have narrow := confirmed_iff cfg.strategy.sessionCfg (fedBars cfg history acts)
  rw [← fed.ranges] at narrow
  cases isClose with
  | true =>
    obtain ⟨sized, positive⟩ := close_sized submits
    rw [sized_accepted_iff sized, fed.client]
    simp [positive]
  | false =>
    rw [sized_accepted_iff (entry_sized submits), entry_positive_iff, fed.client, fed.config, ← narrow]
    simp [indicators, SessionContext.sessionReset]

/-- A breakout without a daily bar: the entry of half a contract. -/
theorem ordinary_day_entry_refused :
    let r := StrategyRunner.reached flatLibm { strategy := makeCfg } "ACC001" (.ok [])
      [.bar openingBar, dispatched (.quote (makeQuote 110 111 (436 * 60 * nsPerSec))),
        dispatched (flowTrade 1)]
    ∃ req, .submit false req ∈ r.effects flatLibm (dispatched (flowBook 2)) ∧ validate req ≠ none := by
  have submits : Effect.submit false ⟨"ACC001", makeCfg.symbol, .buy, .market, 0, 0⟩ ∈
      (StrategyRunner.reached flatLibm { strategy := makeCfg } "ACC001" (.ok [])
        [.bar openingBar, dispatched (.quote (makeQuote 110 111 (436 * 60 * nsPerSec))),
          dispatched (flowTrade 1)]).effects flatLibm (dispatched (flowBook 2)) := by
    decide +kernel
  refine ⟨_, submits, ?_⟩
  intro accepted
  obtain ⟨-, close | large | ⟨-, -, narrow⟩⟩ :=
    (submitted_order_accepted_iff flatLibm { strategy := makeCfg } "ACC001" (.ok []) _ _ _ _ submits).mp
      accepted
  · cases close
  · exact absurd large (by decide)
  · exact narrow

end Accepted

end FinamSizing
