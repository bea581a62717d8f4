import FinamTradebot.ConfluenceStrategy
import FinamTradebot.Runs

/-!
strategy/strategy_runner.hpp. The strategy thread takes one event at a time from the
queue and dispatches it; bars reach the strategy straight from their subscription.
What a dispatch asks of the other components (an order for the executor, a trip of
the circuit breaker) is returned as a list of effects. The queue is a bounded list:
a ring of `kQueueSize` slots holds at most `kQueueSize - 1` events.
-/
namespace FinamRunner
open FinamInterfaces FinamOrderBook FinamConfluence

inductive MdEvent where
  | book (e : BookLevelEvent)
  | trade (e : TradeEvent)
  | quote (q : Quote)
  | order (upd : OrderUpdate)
  | rollover (newSymbol : Symbol)
  deriving DecidableEq

structure RunnerConfig where
  strategy : ConfluenceConfig
  baseTicker : String := ""
  historyDays : ℤ := 20
  rolloverDays : ℤ := 5

structure StrategyRunner where
  strategy : ConfluenceStrategy
  cfg : RunnerConfig
  accountId : String
  activeSymbol : Symbol
  subscribed : Option Symbol
  queue : List MdEvent := []

def kQueueSize : ℕ := 1024

def StrategyRunner.push (r : StrategyRunner) (e : MdEvent) : StrategyRunner × Bool :=
  if r.queue.length < kQueueSize - 1 then ({ r with queue := r.queue ++ [e] }, true) else (r, false)

/-- The answer of `get_bars`: the client stamps every bar with the symbol and the
    timeframe it asked for. -/
def getBars (symbol : Symbol) (timeframe : String) (reply : Result (List Bar)) :
    Result (List Bar) :=
  reply.map (fun bars => bars.map (fun b => { b with symbol := symbol, timeframe := timeframe }))

def loadHistory (s : ConfluenceStrategy) (symbol : Symbol) (reply : Result (List Bar)) :
    ConfluenceStrategy :=
  match getBars symbol "D1" reply with
  | .error _ => s
  | .ok bars => bars.foldl (fun s bar => (s.onBar bar).1) s

def StrategyRunner.init (libm : Libm) (cfg : RunnerConfig) (accountId : String)
    (history : Result (List Bar)) : StrategyRunner :=
  { strategy := loadHistory (ConfluenceStrategy.init libm cfg.strategy) cfg.strategy.symbol history
    cfg := cfg
    accountId := accountId
    activeSymbol := cfg.strategy.symbol
    subscribed := some cfg.strategy.symbol }

inductive Effect where
  | trip (reason : String)
  | submit (isClose : Bool) (req : OrderRequest)
  deriving DecidableEq

/-- `none` stands for a runner built without a risk manager. -/
abbrev RiskCheck := Option (OrderRequest → Result Unit)

def orderRequest (accountId : String) (sig : Signal) : OrderRequest :=
  let isClose := decide (sig.direction = .close)
  { clientId := accountId
    symbol := sig.symbol
    side := if !isClose && decide (sig.direction = .buy) then .buy else .sell
    type := sig.orderType
    price := sig.price
    quantity := sig.quantity }

def riskVerdict (risk : RiskCheck) (isClose : Bool) (req : OrderRequest) : Result Unit :=
  match risk with
  | none => .ok ()
  | some check => if isClose then .ok () else check req

def handleSignal (accountId : String) (risk : RiskCheck) (sig : Signal) : List Effect :=
  if sig.direction = .none then []
  else
    let isClose := decide (sig.direction = .close)
    let req := orderRequest accountId sig
    match riskVerdict risk isClose req with
    | .error e =>
      if e.code = .dailyLossLimitHit ∨ e.code = .riskLimitExceeded then [.trip e.message] else []
    | .ok () => [.submit isClose req]

def StrategyRunner.signalEffects (r : StrategyRunner) (risk : RiskCheck) (sig : Option Signal) :
    List Effect :=
  match sig with
  | none => []
  | some sig => handleSignal r.accountId risk sig

/-- `history` is the reply to the `get_bars` request a rollover makes. -/
def StrategyRunner.dispatch (libm : Libm) (r : StrategyRunner) (risk : RiskCheck)
    (history : Result (List Bar)) : MdEvent → StrategyRunner × List Effect
  | .book e =>
    let (s, sig) := r.strategy.onBookEvent libm e
    ({ r with strategy := s }, r.signalEffects risk sig)
  | .trade e =>
    let (s, sig) := r.strategy.onTradeEvent e
    ({ r with strategy := s }, r.signalEffects risk sig)
  | .quote q =>
    let (s, sig) := (r.strategy.updateBbo q.bid q.ask).onQuote q
    ({ r with strategy := s }, handleSignal r.accountId risk sig)
  | .order upd => ({ r with strategy := r.strategy.onOrderUpdate upd }, [])
  | .rollover newSymbol =>
    let r := { r with subscribed := none }
    let r := { r with strategy := r.strategy.onSessionOpen }
    let r := { r with activeSymbol := newSymbol }
    let r := { r with strategy := loadHistory r.strategy newSymbol history }
    ({ r with subscribed := some newSymbol }, [])

def StrategyRunner.checkRollover (r : StrategyRunner) (next : Symbol) : StrategyRunner × Bool :=
  if next.securityCode = r.activeSymbol.securityCode then (r, true) else r.push (.rollover next)

def StrategyRunner.passesFilter (r : StrategyRunner) (upd : OrderUpdate) : Bool :=
  !(decide (upd.symbol ≠ r.activeSymbol) && decide (upd.symbol.securityCode ≠ ""))

/-- What the callback of one runner does with an update: whether it calls
    `RiskManager::on_fill`, whether the update enters the queue, and the runner after. -/
structure Routed where
  runner : StrategyRunner
  onFill : Bool
  pushed : Bool

def makeOrderCallback (hasRisk : Bool) (r : StrategyRunner) (upd : OrderUpdate) : Routed :=
  if r.passesFilter upd then
    let isFill := decide (upd.status = .filled) || decide (upd.status = .partialFill)
    let pushed := r.push (.order upd)
    ⟨pushed.1, hasRisk && isFill && decide (0 < upd.qtyFilled), pushed.2⟩
  else ⟨r, false, false⟩

inductive Action where
  | dispatch (e : MdEvent) (risk : RiskCheck) (history : Result (List Bar))
  | bar (b : Bar)

def StrategyRunner.perform (libm : Libm) (r : StrategyRunner) : Action → StrategyRunner × List Effect
  | .dispatch e risk history => r.dispatch libm risk history e
  | .bar b => ({ r with strategy := (r.strategy.onBar b).1 }, [])

def StrategyRunner.step (libm : Libm) (r : StrategyRunner) (a : Action) : StrategyRunner :=
  (r.perform libm a).1

def StrategyRunner.effects (libm : Libm) (r : StrategyRunner) (a : Action) : List Effect :=
  (r.perform libm a).2

def StrategyRunner.reached (libm : Libm) (cfg : RunnerConfig) (accountId : String)
    (history : Result (List Bar)) (acts : List Action) : StrategyRunner :=
  Runs.run (StrategyRunner.step libm) (.init libm cfg accountId history) acts

def StrategyRunner.resets (r : StrategyRunner) : Action → Bool
  | .dispatch (.quote q) _ _ => r.strategy.quoteResets q
  | .dispatch (.rollover _) _ _ => true
  | .dispatch _ _ _ => false
  | .bar b => r.strategy.barResets b

/-- The signed quantity that an action adds to a position: only a `Filled` update
    carries one. -/
def Action.fill : Action → ℤ
  | .dispatch (.order upd) _ _ => if upd.status = .filled then upd.side.signed upd.qtyFilled else 0
  | _ => 0

theorem daily_bar_frame (s : ConfluenceStrategy) {bar : Bar} (daily : bar.timeframe = "D1") :
    ∃ ctx, (s.onBar bar).1 = { s with sessionCtx := ctx } := by
  simp only [ConfluenceStrategy.onBar]
  split
  · exact ⟨s.sessionCtx, rfl⟩
  · simp only [detectTimeframe, daily, true_or, ↓reduceIte]
    exact ⟨_, rfl⟩

theorem history_frame (s : ConfluenceStrategy) (symbol : Symbol) (reply : Result (List Bar)) :
    ∃ ctx, loadHistory s symbol reply = { s with sessionCtx := ctx } := by
  unfold loadHistory getBars
  cases reply with
  | error e => exact ⟨s.sessionCtx, rfl⟩
  | ok bars =>
    simp only [Except.map]
    induction bars generalizing s with
    | nil => exact ⟨s.sessionCtx, rfl⟩
    | cons bar rest ih =>
      obtain ⟨first, eq⟩ : ∃ ctx,
          (s.onBar { bar with symbol := symbol, timeframe := "D1" }).1 =
            { s with sessionCtx := ctx } := daily_bar_frame s rfl
      obtain ⟨ctx, tail⟩ := ih { s with sessionCtx := first }
      exact ⟨ctx, by simpa [eq] using tail⟩

section Init
variable (libm : Libm) (cfg : RunnerConfig) (account : String) (history : Result (List Bar))

theorem init_frame : ∃ ctx, (StrategyRunner.init libm cfg account history).strategy =
    { ConfluenceStrategy.init libm cfg.strategy with sessionCtx := ctx } :=
  history_frame (ConfluenceStrategy.init libm cfg.strategy) cfg.strategy.symbol history

@[simp] theorem init_cfg :
    (StrategyRunner.init libm cfg account history).strategy.cfg = cfg.strategy := by
  obtain ⟨ctx, eq⟩ := init_frame libm cfg account history
  rw [eq]
  rfl

@[simp] theorem init_position :
    (StrategyRunner.init libm cfg account history).strategy.position = 0 := by
  obtain ⟨ctx, eq⟩ := init_frame libm cfg account history
  rw [eq]
  rfl

@[simp] theorem init_entryPrice :
    (StrategyRunner.init libm cfg account history).strategy.entryPrice = 0 := by
  obtain ⟨ctx, eq⟩ := init_frame libm cfg account history
  rw [eq]
  rfl

end Init

section Frames
variable (libm : Libm) (r : StrategyRunner) (a : Action)

theorem push_cases (e : MdEvent) :
    (r.queue.length < kQueueSize - 1 ∧ r.push e = ({ r with queue := r.queue ++ [e] }, true)) ∨
      (kQueueSize - 1 ≤ r.queue.length ∧ r.push e = (r, false)) := by
  unfold StrategyRunner.push
  by_cases room : r.queue.length < kQueueSize - 1
  · exact Or.inl ⟨room, if_pos room⟩
  · exact Or.inr ⟨not_lt.mp room, if_neg room⟩

theorem dispatch_queue {libm : Libm} {r : StrategyRunner} {e : MdEvent} {risk : RiskCheck}
    {history : Result (List Bar)} : (r.dispatch libm risk history e).1.queue = r.queue := by
  cases e <;> rfl

structure StepFrame (r next : StrategyRunner) (a : Action) : Prop where
  cfg : next.strategy.cfg = r.strategy.cfg
  account : next.accountId = r.accountId
  position : next.strategy.position = if r.resets a then 0 else r.strategy.position + a.fill
  symbol : next.activeSymbol = match a with
    | .dispatch (.rollover newSymbol) _ _ => newSymbol
    | _ => r.activeSymbol

theorem step_frame : StepFrame r (r.step libm a) a := by
  cases a with
  | bar b =>
    obtain ⟨ctx, opened, eq⟩ := bar_frame r.strategy b
    constructor <;> simp [StrategyRunner.step, StrategyRunner.perform, StrategyRunner.resets,
      Action.fill, eq]
  | dispatch e risk history =>
    cases e with
    | book e =>
      obtain ⟨book, spoof, signalTs, eq⟩ := book_frame libm r.strategy e
      constructor <;> simp [StrategyRunner.step, StrategyRunner.perform, StrategyRunner.dispatch,
        StrategyRunner.resets, Action.fill, eq]
    | trade e =>
      obtain ⟨mid, flow, signalTs, eq⟩ := trade_frame r.strategy e
      constructor <;> simp [StrategyRunner.step, StrategyRunner.perform, StrategyRunner.dispatch,
        StrategyRunner.resets, Action.fill, eq]
    | quote q =>
      obtain ⟨ctx, opened, eq⟩ := quote_frame (r.strategy.updateBbo q.bid q.ask) q
      constructor <;> simp [StrategyRunner.step, StrategyRunner.perform, StrategyRunner.dispatch,
        StrategyRunner.resets, Action.fill, eq]
      · rfl
      · rfl
    | order upd =>
      obtain ⟨entry, eq, -⟩ := update_frame r.strategy upd
      constructor <;> simp [StrategyRunner.step, StrategyRunner.perform, StrategyRunner.dispatch,
        StrategyRunner.resets, Action.fill, eq]
    | rollover newSymbol =>
      obtain ⟨ctx, eq⟩ := history_frame r.strategy.onSessionOpen newSymbol history
      constructor <;> simp [StrategyRunner.step, StrategyRunner.perform, StrategyRunner.dispatch,
        StrategyRunner.resets, eq]
      · rfl
      · rfl

end Frames

section Effects
variable {libm : Libm} {r : StrategyRunner}

def StrategyRunner.closeRequest (r : StrategyRunner) : OrderRequest :=
  { clientId := r.accountId
    symbol := r.strategy.cfg.symbol
    side := .sell
    quantity := |r.strategy.position| }

def StrategyRunner.exits (r : StrategyRunner) : Action → Prop
  | .dispatch (.quote q) _ _ => r.strategy.QuoteExits q
  | _ => False

instance (r : StrategyRunner) : (a : Action) → Decidable (r.exits a)
  | .dispatch (.quote q) _ _ => inferInstanceAs (Decidable (r.strategy.QuoteExits q))
  | .dispatch (.book _) _ _ | .dispatch (.trade _) _ _ | .dispatch (.order _) _ _
  | .dispatch (.rollover _) _ _ | .bar _ => .isFalse id

theorem bbo_quote_exits (s : ConfluenceStrategy) (q : Quote) (bid ask : ℚ) :
    (s.updateBbo bid ask).QuoteExits q ↔ s.QuoteExits q := Iff.rfl

theorem close_signal_effects (account : String) (risk : RiskCheck) (s : ConfluenceStrategy)
    (reason : String) : handleSignal account risk (s.closeSignal reason) =
      [.submit true ⟨account, s.cfg.symbol, .sell, .market, 0, |s.position|⟩] := by
  cases risk <;> rfl

theorem effects_of_exit {a : Action} (exits : r.exits a) :
    r.effects libm a = [.submit true r.closeRequest] := by
  cases a with
  | bar b => exact exits.elim
  | dispatch e risk history =>
    cases e with
    | quote q =>
      obtain ⟨reason, signal⟩ := quote_signal_of_exit
        ((bbo_quote_exits r.strategy q q.bid q.ask).mpr exits)
      simp only [StrategyRunner.effects, StrategyRunner.perform, StrategyRunner.dispatch, signal]
      exact close_signal_effects r.accountId risk (r.strategy.updateBbo q.bid q.ask) reason
    | book | trade | order | rollover => exact exits.elim

theorem submit_effect {account : String} {risk : RiskCheck} {sig : Signal} {isClose : Bool}
    {req : OrderRequest} (submits : Effect.submit isClose req ∈ handleSignal account risk sig) :
    isClose = decide (sig.direction = .close) ∧ req = orderRequest account sig := by
  unfold handleSignal at submits
  split at submits
  · simp at submits
  · simp only at submits
    split at submits
    · split at submits <;> simp at submits
    · simpa using submits

theorem build_entry_direction (s : ConfluenceStrategy) (vote : OfiVote) :
    (s.buildEntry vote).direction ≠ .close := by
  simp only [ConfluenceStrategy.buildEntry]
  split <;> simp

def Action.ts : Action → ℤ
  | .dispatch (.book e) _ _ => e.ts
  | .dispatch (.trade e) _ _ => e.ts
  | .dispatch (.quote q) _ _ => q.ts
  | .dispatch (.order upd) _ _ => upd.ts
  | .dispatch (.rollover _) _ _ => 0
  | .bar b => b.ts

/-- What an entry order says about the action that submitted it: the strategy was
    flat, its last signal was at least five seconds older, and the event now stamps
    the last signal. -/
structure Enters (libm : Libm) (r : StrategyRunner) (a : Action) (req : OrderRequest) : Prop where
  flat : r.strategy.position = 0
  cooled : 5 * nsPerSec ≤ a.ts - r.strategy.lastSignalTs
  stamped : (r.step libm a).strategy.lastSignalTs = a.ts
  symbol : req.symbol = r.strategy.cfg.symbol
  price : req.price = 0

theorem enter_effect {s t : ConfluenceStrategy} {sig : Option Signal} {ts : ℤ}
    {risk : RiskCheck} {isClose : Bool} {req : OrderRequest} (enter : s.tryEnter ts = (t, sig))
    (submits : Effect.submit isClose req ∈ r.signalEffects risk sig) :
    isClose = false ∧ s.position = 0 ∧ 5 * nsPerSec ≤ ts - s.lastSignalTs ∧
      t.lastSignalTs = ts ∧ req.symbol = s.cfg.symbol ∧ req.price = 0 := by
  cases sig with
  | none => simp [StrategyRunner.signalEffects] at submits
  | some sig =>
    obtain ⟨may, rfl, rfl⟩ := try_enter_some enter
    obtain ⟨kind, rfl⟩ := submit_effect submits
    exact ⟨by simpa [build_entry_direction] using kind, may.flat, may.cooled, rfl, rfl, rfl⟩

theorem submit_cases {a : Action} {isClose : Bool} {req : OrderRequest}
    (submits : Effect.submit isClose req ∈ r.effects libm a) :
    (isClose = true ∧ r.exits a ∧ req = r.closeRequest) ∨
      (isClose = false ∧ Enters libm r a req) := by
  cases a with
  | bar b => simp [StrategyRunner.effects, StrategyRunner.perform] at submits
  | dispatch e risk history =>
    cases e with
    | quote q =>
      by_cases exits : r.exits (.dispatch (.quote q) risk history)
      · rw [effects_of_exit exits] at submits
        simp only [List.mem_singleton, Effect.submit.injEq] at submits
        exact Or.inl ⟨submits.1, exits, submits.2⟩
      · have silent := quote_signal_of_no_exit
          (fun due => exits ((bbo_quote_exits r.strategy q q.bid q.ask).mp due))
        simp [StrategyRunner.effects, StrategyRunner.perform, StrategyRunner.dispatch, silent,
          noSignal, handleSignal] at submits
    | book e =>
      obtain ⟨kind, flat, cooled, stamped, symbol, price⟩ := enter_effect (r := r)
        (show ConfluenceStrategy.tryEnter _ e.ts = (_, _) from rfl) submits
      exact Or.inr ⟨kind, flat, cooled, stamped, symbol, price⟩
    | trade e =>
      obtain ⟨kind, flat, cooled, stamped, symbol, price⟩ := enter_effect (r := r)
        (show ConfluenceStrategy.tryEnter _ e.ts = (_, _) from rfl) submits
      exact Or.inr ⟨kind, flat, cooled, stamped, symbol, price⟩
    | order upd =>
      simp [StrategyRunner.effects, StrategyRunner.perform, StrategyRunner.dispatch] at submits
    | rollover newSymbol =>
      simp [StrategyRunner.effects, StrategyRunner.perform, StrategyRunner.dispatch] at submits

end Effects

section Fixture

/-- Exact for the arguments it gets from `makeCfg`: the exponent is 0 at every level
    and the base of every power is 1. -/
def flatLibm : Libm := ⟨fun _ => 1, fun _ _ => 1⟩

/-- The configuration of tests/unit/test_confluence.cpp, without decay. -/
def makeCfg : ConfluenceConfig :=
  { symbol := ⟨"Si-6.26", "FORTS"⟩
    obCfg := { levelDecay := 0, timeDecayPerSec := 1 } }

def makeFill (side : OrderSide) (price : ℚ) (qty : ℤ) : OrderUpdate :=
  { transactionId := 1, symbol := makeCfg.symbol, side := side, status := .filled,
    type := .market, price := price, qtyTotal := qty, qtyFilled := qty, ts := 0 }

def makeQuote (bid ask : ℚ) (ts : ℤ) : Quote :=
  { symbol := makeCfg.symbol, bid := bid, ask := ask, ts := ts }

def openingBar : Bar :=
  { symbol := makeCfg.symbol, timeframe := "M1", opening := 95, high := 100, low := 90,
    close := 95, ts := 421 * 60 * nsPerSec }

/-- Buying after the opening range, at seconds after 07:16 UTC. -/
def flowTrade (second : ℤ) : MdEvent :=
  .trade { price := 111, volume := 10, isBuy := true, ts := (436 * 60 + second) * nsPerSec }

def flowBook (second : ℤ) : MdEvent :=
  .book
    { level := 0, price := 110, oldBidSize := 0, newBidSize := 100, oldAskSize := 0,
      newAskSize := 0, ts := (436 * 60 + second) * nsPerSec }

def dispatched (e : MdEvent) : Action := .dispatch e none (.ok [])

end Fixture

end FinamRunner
