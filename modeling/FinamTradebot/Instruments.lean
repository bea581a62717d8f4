import FinamTradebot.Contract
import FinamTradebot.FillDelivery
import FinamTradebot.Bot
import Mathlib.Data.List.Nodup

/-!
The instruments of main.cpp: one runner a ticker, each built for the contract nearest at its
construction and followed by its own rollover watchdog, and all of them called back for every
update of the one order client.
-/
namespace FinamInstruments
open FinamInterfaces FinamConfluence FinamContract FinamOrderFlow FinamDelivery FinamBot Runs
open FinamRunner hiding Action
open FinamOrderBook (Libm)

structure SymbolConfig where
  ticker : String
  tickSize : ℚ
  baseQty : ℤ
  slTicks : ℚ
  tpTicks : ℚ
  rolloverDays : ℤ

def makeSymbolConfigs : List SymbolConfig :=
  [⟨"Si", 1, 1, 30, 90, 5⟩, ⟨"RI", 10, 1, 30, 90, 5⟩, ⟨"GD", 1, 1, 30, 90, 5⟩,
   ⟨"MX", 1 / 20, 1, 30, 90, 5⟩, ⟨"BR", 1 / 100, 1, 30, 90, 5⟩]

def runnerConfig (sc : SymbolConfig) (now : ℤ) : RunnerConfig :=
  { strategy :=
      { symbol := nearestContract sc.ticker sc.rolloverDays now
        baseQty := sc.baseQty
        slTicks := sc.slTicks
        tpTicks := sc.tpTicks
        tickSize := sc.tickSize }
    baseTicker := sc.ticker
    historyDays := 20
    rolloverDays := sc.rolloverDays }

/-- What the construction of a runner finds: the time on the clock and the reply to its
    request for the daily history. -/
structure Opening where
  now : ℤ
  history : Result (List Bar)

def mainConfigs (openings : ℕ → Opening) : List (RunnerConfig × Result (List Bar)) :=
  makeSymbolConfigs.mapIdx (fun i sc => (runnerConfig sc (openings i).now, (openings i).history))

/-- A turn of a watchdog brings the time it reads; the contract is the code's own choice. -/
inductive Turn where
  | watch (i : ℕ) (now : ℤ)
  | other (m : Move)

def mainStep (libm : Libm) (b : Bot) : Turn → Bot
  | .watch i now =>
    match b.runners[i]? with
    | some r => b.step libm (.watch i (nearestContract r.cfg.baseTicker r.cfg.rolloverDays now))
    | none => b
  | .other (.watch _ _) => b
  | .other m => b.step libm m

section Tickers
variable {ticker other : String} {sym : Symbol}

def OfTicker (ticker : String) (sym : Symbol) : Prop := ∃ e, sym = contractSymbol ticker e

theorem nearest_of_ticker (ticker : String) (rolloverDays now : ℤ) :
    OfTicker ticker (nearestContract ticker rolloverDays now) := ⟨_, rfl⟩

theorem contract_code_head (ticker : String) (e : Expiry) :
    (contractSymbol ticker e).securityCode.toList.take ticker.length = ticker.toList := by
  simp [contractSymbol, ← String.length_toList]

/-- Codes of two tickers of the same length differ where the tickers do. -/
theorem of_ticker_ne {first second : Symbol} (owned : OfTicker ticker first)
    (foreign : OfTicker other second) (length : ticker.length = other.length)
    (apart : ticker ≠ other) : first ≠ second := by
  obtain ⟨e, rfl⟩ := owned
  obtain ⟨d, rfl⟩ := foreign
  intro same
  have heads := contract_code_head ticker e
  rw [same, length, contract_code_head other d] at heads
  exact apart (String.toList_injective heads.symm)

theorem of_ticker_named (owned : OfTicker ticker sym) : sym.securityCode ≠ "" := by
  obtain ⟨e, rfl⟩ := owned
  intro empty
  have chars := congrArg String.toList empty
  simp [contractSymbol] at chars

end Tickers

section Owned
variable {libm : Libm} {tickers : List String} {ticker : String} {b : Bot} {r : StrategyRunner}

/-- Every symbol a runner holds, those of its queue included, is a contract of its ticker;
    only an update may come without one. -/
structure Trades (ticker : String) (r : StrategyRunner) : Prop where
  base : r.cfg.baseTicker = ticker
  configured : OfTicker ticker r.strategy.cfg.symbol
  active : OfTicker ticker r.activeSymbol
  queued : ∀ sym, .rollover sym ∈ r.queue → OfTicker ticker sym
  updates : ∀ upd, .order upd ∈ r.queue → upd.symbol.securityCode ≠ "" → OfTicker ticker upd.symbol

def Owned (tickers : List String) (runners : List StrategyRunner) : Prop :=
  ∀ (i : ℕ) r, runners[i]? = some r → ∃ ticker, tickers[i]? = some ticker ∧ Trades ticker r

theorem push_trades (trades : Trades ticker r) {e : MdEvent}
    (rolls : ∀ sym, e = .rollover sym → OfTicker ticker sym)
    (update : ∀ upd, e = .order upd → upd.symbol.securityCode ≠ "" → OfTicker ticker upd.symbol) :
    Trades ticker (r.push e).1 := by
  rcases push_cases r e with ⟨-, eq⟩ | ⟨-, eq⟩
  · rw [eq]
    refine ⟨trades.base, trades.configured, trades.active, fun sym member => ?_, fun upd member => ?_⟩
    · rcases List.mem_append.mp member with old | new
      · exact trades.queued sym old
      · exact rolls sym (List.mem_singleton.mp new).symm
    · rcases List.mem_append.mp member with old | new
      · exact trades.updates upd old
      · exact update upd (List.mem_singleton.mp new).symm
  · rw [eq]
    exact trades

theorem callback_trades (trades : Trades ticker r) (upd : OrderUpdate) :
    Trades ticker (makeOrderCallback true r upd).runner := by
  unfold makeOrderCallback
  split
  · rename_i passes
    refine push_trades trades (by simp) ?_
    rintro same ⟨⟩ named
    exact filter_symbol named passes ▸ trades.active
  · exact trades

theorem check_rollover_trades (trades : Trades ticker r) (now : ℤ) :
    Trades ticker (r.checkRollover (nearestContract r.cfg.baseTicker r.cfg.rolloverDays now)).1 := by
  unfold StrategyRunner.checkRollover
  split
  · exact trades
  · refine push_trades trades ?_ (by simp)
    rintro sym ⟨⟩
    rw [trades.base]
    exact nearest_of_ticker ticker r.cfg.rolloverDays now

theorem dispatch_cfg (e : MdEvent) (risk : RiskCheck) (history : Result (List Bar)) :
    (r.dispatch libm risk history e).1.cfg = r.cfg := by
  cases e <;> rfl

theorem dispatch_trades {e : MdEvent} {rest : List MdEvent} {risk : RiskCheck}
    {history : Result (List Bar)} (trades : Trades ticker r) (waiting : r.queue = e :: rest) :
    Trades ticker ({ r with queue := rest }.dispatch libm risk history e).1 := by
  have frame := step_frame libm { r with queue := rest } (.dispatch e risk history)
  have later : ∀ event, event ∈ rest → event ∈ r.queue := by
    intro event member
    exact waiting ▸ List.mem_cons_of_mem e member
  constructor
  · rw [dispatch_cfg]
    exact trades.base
  · exact frame.cfg.symm ▸ trades.configured
  · have symbol := frame.symbol
    cases e with
    | rollover sym =>
      exact symbol ▸ trades.queued sym (waiting ▸ List.mem_cons_self)
    | book | trade | quote | order => exact symbol ▸ trades.active
  · rw [dispatch_queue]
    exact fun sym member => trades.queued sym (later _ member)
  · rw [dispatch_queue]
    exact fun upd member => trades.updates upd (later _ member)

theorem set_owned {runners : List StrategyRunner} {i : ℕ} {next : StrategyRunner}
    (owned : Owned tickers runners) (found : runners[i]? = some r)
    (keeps : ∀ ticker, Trades ticker r → Trades ticker next) : Owned tickers (runners.set i next) := by
  intro j s holds
  rw [List.getElem?_set] at holds
  split at holds
  · rename_i same
    subst same
    obtain ⟨ticker, listed, trades⟩ := owned i r found
    split at holds
    · cases holds
      exact ⟨ticker, listed, keeps ticker trades⟩
    · cases holds
  · exact owned j s holds

theorem broadcasts_owned {updates : List OrderUpdate} {runners : List StrategyRunner}
    (owned : Owned tickers runners) : Owned tickers (updates.foldl broadcast runners) := by
  induction updates generalizing runners with
  | nil => exact owned
  | cons upd rest ih =>
    refine ih fun i r found => ?_
    simp only [broadcast, List.getElem?_map, Option.map_eq_some_iff] at found
    obtain ⟨old, known, rfl⟩ := found
    obtain ⟨ticker, listed, trades⟩ := owned i old known
    exact ⟨ticker, listed, callback_trades trades upd⟩

theorem drain_owned {i : ℕ} {risk : RiskCheck} {history : Result (List Bar)}
    (owned : Owned tickers b.runners) : Owned tickers (b.drain libm i risk history).runners := by
  unfold Bot.drain
  split
  · rename_i r _ found
    split
    · exact owned
    · rename_i e rest waiting
      rw [performs_runners]
      exact set_owned owned found (fun ticker trades => dispatch_trades trades waiting)
  · exact owned

theorem turn_owned (libm : Libm) (b : Bot) (t : Turn) (owned : Owned tickers b.runners) :
    Owned tickers (mainStep libm b t).runners := by
  cases t with
  | watch i now =>
    simp only [mainStep]
    split
    · rename_i r found
      simp only [Bot.step, found]
      exact set_owned owned found (fun ticker trades => check_rollover_trades trades now)
    · exact owned
  | other m =>
    cases m with
    | market i e =>
      simp only [mainStep, Bot.step]
      split
      · rename_i r market found
        refine set_owned owned found (fun ticker trades => push_trades trades ?_ ?_)
        · rintro sym rfl
          simp [isMarket] at market
        · rintro upd rfl
          simp [isMarket] at market
      · exact owned
    | bar i bar =>
      simp only [mainStep, Bot.step]
      split
      · rename_i r found
        obtain ⟨ctx, opened, eq⟩ := bar_frame r.strategy bar
        refine set_owned owned found (fun ticker trades => ?_)
        refine ⟨trades.base, ?_, trades.active, trades.queued, trades.updates⟩
        simpa [eq] using trades.configured
      · exact owned
    | watch i next => exact owned
    | drain i risk history => exact drain_owned owned
    | reply | submitStep | report | streamStep => exact broadcasts_owned owned

def tickersOf (scs : List SymbolConfig) : List String := scs.map SymbolConfig.ticker

theorem main_owned (libm : Libm) (accountId : String) (openings : ℕ → Opening) :
    Owned (tickersOf makeSymbolConfigs) (Bot.init libm accountId (mainConfigs openings)).runners := by
  intro i r found
  simp only [Bot.init, mainConfigs, List.getElem?_map, List.getElem?_mapIdx, Option.map_eq_some_iff] at found
  obtain ⟨config, ⟨sc, listed, rfl⟩, rfl⟩ := found
  refine ⟨sc.ticker, by simp [tickersOf, listed], rfl, ?_, nearest_of_ticker _ _ _,
    by simp [StrategyRunner.init], by simp [StrategyRunner.init]⟩
  rw [init_cfg]
  exact nearest_of_ticker sc.ticker sc.rolloverDays (openings i).now

end Owned

section Isolation
variable {libm : Libm} {tickers : List String} {b : Bot}

/-- No two runners share an instrument: a named update is taken by one of them at most, an
    update of an order that a runner submits by no other, and the updates waiting in two
    queues are of different symbols. -/
structure Isolated (libm : Libm) (b : Bot) : Prop where
  routed : ∀ upd, upd.symbol.securityCode ≠ "" →
    fillCalls true b.runners upd ≤ 1 ∧ queuePushes true b.runners upd ≤ 1
  submitted : ∀ (i j : ℕ) r s a isClose req, i ≠ j → b.runners[i]? = some r → b.runners[j]? = some s →
    .submit isClose req ∈ r.effects libm a → ∀ upd, upd.symbol = req.symbol → s.passesFilter upd = false
  queued : ∀ (i j : ℕ) r s first second, i ≠ j → b.runners[i]? = some r → b.runners[j]? = some s →
    .order first ∈ r.queue → .order second ∈ s.queue → first.symbol.securityCode ≠ "" →
      first.symbol ≠ second.symbol

/-- Tickers no two of which can begin the same code. -/
structure Separate (tickers : List String) : Prop where
  distinct : tickers.Nodup
  lengths : ∀ first ∈ tickers, ∀ second ∈ tickers, first.length = second.length

theorem separate_ne (separate : Separate tickers) {i j : ℕ} {ticker other : String} (apart : i ≠ j)
    (listed : tickers[i]? = some ticker) (foreign : tickers[j]? = some other) {first second : Symbol}
    (owned : OfTicker ticker first) (others : OfTicker other second) : first ≠ second := by
  refine of_ticker_ne owned others ?_ ?_
  · exact separate.lengths ticker (List.mem_of_getElem? listed) other (List.mem_of_getElem? foreign)
  · intro same
    obtain ⟨inside, -⟩ := List.getElem?_eq_some_iff.mp listed
    exact apart ((List.getElem?_inj inside separate.distinct).mp (by rw [listed, foreign, same]))

theorem active_distinct (separate : Separate tickers) (owned : Owned tickers b.runners) :
    (b.runners.map StrategyRunner.activeSymbol).Nodup := by
  rw [List.nodup_iff_getElem?_ne_getElem?]
  intro i j before inside same
  have reached : i < b.runners.length := by
    rw [List.length_map] at inside
    omega
  have later : j < b.runners.length := by simpa using inside
  obtain ⟨ticker, listed, trades⟩ := owned i _ (List.getElem?_eq_getElem reached)
  obtain ⟨other, foreign, others⟩ := owned j _ (List.getElem?_eq_getElem later)
  refine separate_ne separate before.ne listed foreign trades.active others.active ?_
  simpa [List.getElem?_map, List.getElem?_eq_getElem reached, List.getElem?_eq_getElem later] using same

theorem submit_symbol {r : StrategyRunner} {a : FinamRunner.Action} {isClose : Bool} {req : OrderRequest}
    (submits : .submit isClose req ∈ r.effects libm a) : req.symbol = r.strategy.cfg.symbol := by
  rcases submit_cases submits with ⟨-, -, rfl⟩ | ⟨-, enters⟩
  · rfl
  · exact enters.symbol

theorem owned_isolated (separate : Separate tickers) (owned : Owned tickers b.runners) :
    Isolated libm b := by
  constructor
  · intro upd named
    exact routed_once_of_named named true b.runners (active_distinct separate owned)
  · intro i j r s a isClose req apart found foreign submits upd symbol
    obtain ⟨ticker, listed, trades⟩ := owned i r found
    obtain ⟨other, elsewhere, others⟩ := owned j s foreign
    have configured : OfTicker ticker upd.symbol := by
      rw [symbol, submit_symbol submits]
      exact trades.configured
    by_contra passes
    have taken := filter_symbol (of_ticker_named configured) (by simpa using passes)
    exact separate_ne separate apart listed elsewhere configured others.active taken.symm
  · intro i j r s first second apart found foreign here there named same
    obtain ⟨ticker, listed, trades⟩ := owned i r found
    obtain ⟨other, elsewhere, others⟩ := owned j s foreign
    exact separate_ne separate apart listed elsewhere (trades.updates first here named)
      (others.updates second there (same ▸ named)) same

theorem main_tickers_separate : Separate (tickersOf makeSymbolConfigs) := by
  constructor <;> decide +kernel

end Isolation

end FinamInstruments
