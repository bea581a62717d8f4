import FinamTradebot.StrategyRunner

/-!
What a session reset and a rollover leave behind. `on_session_open` zeroes the
position whatever it is, and a rollover moves the subscriptions and the active
symbol of the runner but not the symbol of the strategy.
-/
namespace FinamReset
open FinamInterfaces FinamOrderBook FinamSession FinamConfluence FinamRunner Runs

section Position
variable {libm : Libm} {l : Logged StrategyRunner Action} {a : Action}

def resetStep (libm : Libm) : Logged StrategyRunner Action → Action →
    Logged StrategyRunner Action :=
  Logged.record (StrategyRunner.step libm) StrategyRunner.resets

theorem reset_fill {r : StrategyRunner} (resets : r.resets a = true) : a.fill = 0 := by
  cases a with
  | bar b => rfl
  | dispatch e risk history =>
    cases e with
    | order upd => simp [StrategyRunner.resets] at resets
    | book | trade | quote | rollover => rfl

def NetPosition (l : Logged StrategyRunner Action) : Prop :=
  l.state.strategy.position = (l.log.map Action.fill).sum

theorem net_position_step (net : NetPosition l) : NetPosition (resetStep libm l a) := by
  have position := (step_frame libm l.state a).position
  simp only [NetPosition, resetStep, Logged.record] at net ⊢
  rw [position]
  cases resets : l.state.resets a with
  | true => simp [reset_fill resets]
  | false => simp [net]

theorem net_position_init (cfg : RunnerConfig) (account : String) (history : Result (List Bar)) :
    NetPosition ⟨.init libm cfg account history, []⟩ := by
  simp [NetPosition]

def ForgetsNothing (l : Logged StrategyRunner Action) (a : Action) : Prop :=
  l.state.resets a = true → l.state.strategy.position = 0

def FlatBySession (l : Logged StrategyRunner Action) (a : Action) : Prop :=
  l.state.resets a = true → (l.log.map Action.fill).sum = 0

instance (l : Logged StrategyRunner Action) (a : Action) : Decidable (ForgetsNothing l a) :=
  inferInstanceAs (Decidable (_ → _))

/-- In every run of a runner, no reset discards an open position exactly if the fills
    between any two resets net to zero: nothing in the runner closes the position. -/
theorem no_position_forgotten_iff (libm : Libm) (cfg : RunnerConfig) (account : String)
    (history : Result (List Bar)) (acts : List Action) :
    let l : Logged StrategyRunner Action := ⟨.init libm cfg account history, []⟩
    Along (resetStep libm) ForgetsNothing l acts ↔ Along (resetStep libm) FlatBySession l acts := by
  refine along_iff_of_invariant (I := NetPosition) ?_ ?_ (net_position_init cfg account history)
  · intro l a net
    simp only [ForgetsNothing, FlatBySession, net.symm]
  · intro l a net
    exact net_position_step net

/-- One contract bought and held overnight: the first quote after 07:00 UTC forgets it. -/
theorem overnight_position_forgotten :
    let l : Logged StrategyRunner Action :=
      ⟨.init flatLibm ⟨makeCfg, "Si", 20, 5⟩ "ACC001" (.ok []), []⟩
    let acts := [dispatched (.order (makeFill .buy 100 1)),
      dispatched (.quote (makeQuote 100 101 (421 * 60 * nsPerSec)))]
    ¬ Along (resetStep flatLibm) ForgetsNothing l acts ∧
      (run (resetStep flatLibm) l acts).state.strategy.position = 0 := by
  decide +kernel

end Position

section Rollover
variable {libm : Libm} {r : StrategyRunner} {a : Action}

theorem history_of_symbol {s : ConfluenceStrategy} {symbol : Symbol} (own : symbol = s.cfg.symbol)
    (bars : List Bar) : (loadHistory s symbol (.ok bars)).sessionCtx =
      bars.foldl SessionContext.onDailyBar s.sessionCtx := by
  subst own
  simp only [loadHistory, getBars, Except.map]
  induction bars generalizing s with
  | nil => rfl
  | cons bar rest ih =>
    simp only [List.map_cons, List.foldl_cons]
    have first : (s.onBar { bar with symbol := s.cfg.symbol, timeframe := "D1" }).1 =
        { s with sessionCtx := s.sessionCtx.onDailyBar bar } := by
      simp [ConfluenceStrategy.onBar, detectTimeframe]
      rfl
    rw [first]
    exact ih (s := { s with sessionCtx := s.sessionCtx.onDailyBar bar })

theorem own_quote_finalizes {s : ConfluenceStrategy} {q : Quote} (own : q.symbol = s.cfg.symbol) :
    (s.onQuote q).1.sessionCtx.orbFinalized = true := by
  rw [quote_context s own]
  exact finalize_sets _ _

/-- The strategy works on the symbol the runner has active: its orders are for that
    symbol and their updates pass the filter, and the history and the quotes of that
    symbol reach the indicators (a quote leaves the opening range finalized). -/
structure TradesActive (libm : Libm) (r : StrategyRunner) : Prop where
  same : r.strategy.cfg.symbol = r.activeSymbol
  orders : ∀ a isClose req, Effect.submit isClose req ∈ r.effects libm a →
    req.symbol = r.activeSymbol ∧ ∀ upd : OrderUpdate, upd.symbol = req.symbol →
      r.passesFilter upd = true
  history : ∀ bars, (loadHistory r.strategy r.activeSymbol (.ok bars)).sessionCtx =
    bars.foldl SessionContext.onDailyBar r.strategy.sessionCtx
  quotes : ∀ q : Quote, q.symbol = r.activeSymbol →
    (r.strategy.onQuote q).1.sessionCtx.orbFinalized = true

theorem submit_symbol {isClose : Bool} {req : OrderRequest}
    (submits : Effect.submit isClose req ∈ r.effects libm a) :
    req.symbol = r.strategy.cfg.symbol := by
  rcases submit_cases submits with ⟨-, -, rfl⟩ | ⟨-, enters⟩
  · rfl
  · exact enters.symbol

theorem trades_active_iff : TradesActive libm r ↔ r.strategy.cfg.symbol = r.activeSymbol := by
  constructor
  · exact TradesActive.same
  · intro same
    refine ⟨same, ?_, fun bars => history_of_symbol same.symm bars,
      fun q active => own_quote_finalizes (active.trans same.symm)⟩
    intro a isClose req submits
    have symbol : req.symbol = r.activeSymbol := (submit_symbol submits).trans same
    refine ⟨symbol, fun upd own => ?_⟩
    simp [StrategyRunner.passesFilter, own.trans symbol]

def RollsTo (symbol : Symbol) : Action → Prop
  | .dispatch (.rollover newSymbol) _ _ => newSymbol = symbol
  | _ => True

theorem step_active_iff {symbol : Symbol} (fixed : r.strategy.cfg.symbol = symbol)
    (active : TradesActive libm r) : TradesActive libm (r.step libm a) ↔ RollsTo symbol a := by
  have frame := step_frame libm r a
  rw [trades_active_iff, frame.cfg, frame.symbol]
  have same := active.same
  cases a with
  | bar b => simp [RollsTo, same]
  | dispatch e risk history =>
    cases e with
    | rollover newSymbol => simp only [RollsTo, fixed]; exact eq_comm
    | book | trade | quote | order => simp [RollsTo, same]

/-- In every run of a runner, the strategy trades the active symbol in every state
    exactly if every rollover leads back to the symbol the runner was built with. -/
theorem trades_active_symbol_iff (libm : Libm) (cfg : RunnerConfig) (account : String)
    (history : Result (List Bar)) (acts : List Action) :
    Visits (StrategyRunner.step libm) (TradesActive libm) (.init libm cfg account history) acts ↔
      ∀ a ∈ acts, RollsTo cfg.strategy.symbol a := by
  rw [visits_iff_along (I := fun r => r.strategy.cfg.symbol = cfg.strategy.symbol)
    (C := fun _ a => RollsTo cfg.strategy.symbol a), along_iff_forall]
  · intro r a fixed active
    exact step_active_iff fixed active
  · intro r a fixed _ _
    rw [(step_frame libm r a).cfg]
    exact fixed
  · rw [init_cfg]
  · rw [trades_active_iff, init_cfg]
    rfl

/-- After a rollover from June to September the strategy still discards every quote
    of the September contract. -/
theorem rollover_keeps_old_symbol :
    let september : Symbol := ⟨"Si-9.26", "FORTS"⟩
    let r : StrategyRunner := .init flatLibm ⟨makeCfg, "Si", 20, 5⟩ "ACC001" (.ok [])
    let acts := [dispatched (.rollover september)]
    (run (StrategyRunner.step flatLibm) r acts).activeSymbol = september ∧
      (run (StrategyRunner.step flatLibm) r acts).strategy.cfg.symbol = makeCfg.symbol ∧
      ¬ Visits (StrategyRunner.step flatLibm) (TradesActive flatLibm) r acts := by
  refine ⟨by decide +kernel, by decide +kernel, fun all => ?_⟩
  exact absurd (visits_last all).same (by decide +kernel)

end Rollover

end FinamReset
