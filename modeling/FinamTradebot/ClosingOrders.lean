import FinamTradebot.StrategyRunner

/-!
From a Close signal to the order that carries it out. The sign of the position is
known to the strategy only: the runner chooses the side from the direction of the
signal, and a Close has none.
-/
namespace FinamClosing
open FinamInterfaces FinamOrderBook FinamConfluence FinamRunner Runs

def closingSide (position : ℤ) : OrderSide := if 0 < position then .sell else .buy

def fullFill (req : OrderRequest) (price : ℚ) (transactionId : ℤ) (ts : ℤ) : OrderUpdate :=
  { transactionId := transactionId
    symbol := req.symbol
    clientId := req.clientId
    side := req.side
    status := .filled
    type := req.type
    price := price
    qtyTotal := req.quantity
    qtyFilled := req.quantity
    ts := ts }

/-- `req` closes the position of `s`; `t` is the strategy after the quote. -/
structure ReducesExposure (s t : ConfluenceStrategy) (req : OrderRequest) : Prop where
  side : req.side = closingSide s.position
  quantity : req.quantity = |s.position|
  flattens : ∀ price transactionId ts,
    (t.onOrderUpdate (fullFill req price transactionId ts)).position = 0

theorem full_fill_position (s : ConfluenceStrategy) (req : OrderRequest) (price : ℚ)
    (transactionId : ℤ) (ts : ℤ) :
    (s.onOrderUpdate (fullFill req price transactionId ts)).position =
      s.position + req.side.signed req.quantity := by
  obtain ⟨entry, eq, -⟩ := update_frame s (fullFill req price transactionId ts)
  rw [eq]
  rfl

theorem exit_position {libm : Libm} {r : StrategyRunner} {a : Action} (exits : r.exits a) :
    (r.step libm a).strategy.position = r.strategy.position := by
  rw [(step_frame libm r a).position]
  cases a with
  | bar b => exact exits.elim
  | dispatch e risk history =>
    cases e with
    | quote q => simp [StrategyRunner.resets, ConfluenceStrategy.quoteResets, Action.fill, exits.2.1]
    | book | trade | order | rollover => exact exits.elim

theorem close_request_exact {libm : Libm} {r : StrategyRunner} {a : Action} (exits : r.exits a) :
    ReducesExposure r.strategy (r.step libm a).strategy r.closeRequest ↔
      0 < r.strategy.position := by
  constructor
  · intro reduces
    have side := reduces.side
    by_contra short
    simp [StrategyRunner.closeRequest, closingSide, short] at side
  · intro long
    refine ⟨by simp [StrategyRunner.closeRequest, closingSide, long], rfl, ?_⟩
    intro price transactionId ts
    rw [full_fill_position, exit_position exits]
    simp only [StrategyRunner.closeRequest, signed_sell, abs_of_pos long]
    omega

/-- In every reachable state the order made from a Close signal closes the position
    exactly if the position is long: `handle_signal` sells for every Close. -/
theorem close_order_reduces_exposure_iff (libm : Libm) (cfg : RunnerConfig) (account : String)
    (history : Result (List Bar)) (acts : List Action) (a : Action) (req : OrderRequest)
    (closes : Effect.submit true req ∈
      (StrategyRunner.reached libm cfg account history acts).effects libm a) :
    let r := StrategyRunner.reached libm cfg account history acts
    ReducesExposure r.strategy (r.step libm a).strategy req ↔ 0 < r.strategy.position := by
  rcases submit_cases closes with ⟨-, exits, rfl⟩ | ⟨entry, -⟩
  · exact close_request_exact exits
  · simp at entry

theorem long_close_reduces_exposure :
    let r := StrategyRunner.reached flatLibm ⟨makeCfg, "Si", 20, 5⟩ "ACC001" (.ok [])
      [dispatched (.order (makeFill .buy 100 1))]
    let a := dispatched (.quote (makeQuote 69 70 0))
    r.strategy.position = 1 ∧ Effect.submit true r.closeRequest ∈ r.effects flatLibm a ∧
      ReducesExposure r.strategy (r.step flatLibm a).strategy r.closeRequest := by
  intro r a
  have submits : Effect.submit true r.closeRequest ∈ r.effects flatLibm a := by decide +kernel
  exact ⟨by decide +kernel, submits,
    (close_order_reduces_exposure_iff _ _ _ _ _ _ _ submits).mpr (by decide +kernel)⟩

/-- A short of one contract whose stop is hit: the Close order sells one more. -/
theorem short_close_doubles_position :
    let r := StrategyRunner.reached flatLibm ⟨makeCfg, "Si", 20, 5⟩ "ACC001" (.ok [])
      [dispatched (.order (makeFill .sell 100 1))]
    let a := dispatched (.quote (makeQuote 130 131 0))
    r.strategy.position = -1 ∧ r.effects flatLibm a = [.submit true r.closeRequest] ∧
      ((r.step flatLibm a).strategy.onOrderUpdate (fullFill r.closeRequest 131 2 0)).position = -2 ∧
      ¬ ReducesExposure r.strategy (r.step flatLibm a).strategy r.closeRequest := by
  refine ⟨by decide +kernel, by decide +kernel, by decide +kernel, fun reduces => ?_⟩
  have side : closingSide (-1) = .sell := reduces.side.symm
  exact absurd side (by decide)

end FinamClosing
