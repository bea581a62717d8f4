import FinamTradebot.DryRun
import FinamTradebot.Instruments
import FinamTradebot.OrderSizing

/-!
The messages that the bot of main.cpp sends to the exchange. Every request of a run goes back
to one dispatch of one runner; with the base quantity of main and without prices in the updates
it is an entry, and what `submit` lets through of the entries is a single contract.
-/
namespace FinamMainOrders
open FinamInterfaces FinamConfluence FinamContract FinamOrderClient FinamOrderFlow FinamBot
open FinamInstruments FinamDryRun FinamSizing Runs
open FinamRunner hiding Action
open FinamOrderBook (Libm)

section Configs
variable {libm : Libm}

def configsOf (runners : List StrategyRunner) : List ConfluenceConfig :=
  runners.map (fun r => r.strategy.cfg)

theorem set_configs {runners : List StrategyRunner} {i : ℕ} {r next : StrategyRunner}
    (found : runners[i]? = some r) (same : next.strategy.cfg = r.strategy.cfg) :
    configsOf (runners.set i next) = configsOf runners := by
  rw [configsOf, configsOf, List.map_set, same]
  obtain ⟨inside, rfl⟩ := List.getElem?_eq_some_iff.mp found
  rw [← List.getElem_map (fun r : StrategyRunner => r.strategy.cfg), List.set_getElem_self]
  simpa using inside

theorem push_config (r : StrategyRunner) (e : MdEvent) : (r.push e).1.strategy = r.strategy := by
  unfold StrategyRunner.push
  split <;> rfl

theorem callback_config (r : StrategyRunner) (upd : OrderUpdate) :
    (makeOrderCallback true r upd).runner.strategy = r.strategy := by
  unfold makeOrderCallback
  split
  · exact push_config r (.order upd)
  · rfl

theorem broadcasts_configs (updates : List OrderUpdate) (runners : List StrategyRunner) :
    configsOf (updates.foldl broadcast runners) = configsOf runners := by
  induction updates generalizing runners with
  | nil => rfl
  | cons upd rest ih =>
    rw [List.foldl_cons, ih, configsOf, configsOf, broadcast, List.map_map]
    refine List.map_congr_left (fun r _ => ?_)
    exact congrArg ConfluenceStrategy.cfg (callback_config r upd)

/-- No step changes what a strategy was configured with, a rollover included. -/
theorem step_configs (b : Bot) (m : Move) :
    configsOf (b.step libm m).runners = configsOf b.runners := by
  cases m with
  | market i e =>
    simp only [Bot.step]
    split
    · rename_i r _ found
      exact set_configs found (by rw [push_config])
    · rfl
  | bar i bar =>
    simp only [Bot.step]
    split
    · rename_i r found
      exact set_configs found (step_frame libm r (.bar bar)).cfg
    · rfl
  | watch i next =>
    simp only [Bot.step, StrategyRunner.checkRollover]
    split
    · rename_i r found
      split
      · exact set_configs found rfl
      · exact set_configs found (by rw [push_config])
    · rfl
  | drain i risk history =>
    simp only [Bot.step, Bot.drain]
    split
    · rename_i r _ found
      split
      · rfl
      · rename_i e rest waiting
        rw [performs_runners]
        exact set_configs found (step_frame libm { r with queue := rest } (.dispatch e risk history)).cfg
    · rfl
  | reply | submitStep | report | streamStep => exact broadcasts_configs _ _

end Configs

section Requests
variable {libm : Libm} {openings : ℕ → Opening}

/-- A request of one of main's runners: an entry in the contract it was constructed for, and
    of one contract if it is not refused. -/
structure SingleEntry (openings : ℕ → Opening) (req : OrderRequest) : Prop where
  symbol : ∃ (i : ℕ) (sc : SymbolConfig), makeSymbolConfigs[i]? = some sc ∧
    req.symbol = nearestContract sc.ticker sc.rolloverDays (openings i).now
  market : req.type = .market
  single : validate req = none → req.quantity = 1

theorem unpriced_stays {r : StrategyRunner} (unpriced : r.strategy.entryPrice = 0)
    (a : FinamRunner.Action) : ¬ r.exits a := by
  cases a with
  | bar b => exact id
  | dispatch e risk history =>
    cases e with
    | quote q =>
      rintro ⟨-, -, -, priced, -⟩
      rw [unpriced] at priced
      norm_num at priced
    | book | trade | order | rollover => exact id

theorem base_quantity_one {i : ℕ} {sc : SymbolConfig} (listed : makeSymbolConfigs[i]? = some sc) :
    sc.baseQty = 1 := by
  have all : ∀ sc ∈ makeSymbolConfigs, sc.baseQty = 1 := by
    simp [makeSymbolConfigs]
  exact all sc (List.mem_of_getElem? listed)

theorem accepted_positive {req : OrderRequest} (valid : validate req = none) : 0 < req.quantity := by
  by_contra few
  unfold validate at valid
  split_ifs at valid
  omega

theorem single_entry {r : StrategyRunner} {i : ℕ} {sc : SymbolConfig} {a : FinamRunner.Action}
    {isClose : Bool} {req : OrderRequest} (listed : makeSymbolConfigs[i]? = some sc)
    (config : r.strategy.cfg = (runnerConfig sc (openings i).now).strategy)
    (unpriced : r.strategy.entryPrice = 0) (submits : .submit isClose req ∈ r.effects libm a) :
    SingleEntry openings req := by
  rcases submit_cases submits with ⟨-, exits, -⟩ | ⟨rfl, enters⟩
  · exact absurd exits (unpriced_stays unpriced a)
  · have sized := entry_sized submits
    refine ⟨⟨i, sc, listed, ?_⟩, sized.market, fun valid => ?_⟩
    · rw [enters.symbol, config]
      rfl
    · have positive := accepted_positive valid
      have base : r.strategy.cfg.baseQty = 1 := by
        rw [config]
        exact base_quantity_one listed
      rw [sized.quantity, base] at positive ⊢
      cases narrow : r.strategy.sessionCtx.nr7Confirmed with
      | true => rfl
      | false =>
        rw [narrow] at positive
        exact absurd positive (by decide)

/-- The configurations of main's runners. -/
def configured (openings : ℕ → Opening) : List ConfluenceConfig :=
  (mainConfigs openings).map (fun c => c.1.strategy)

theorem configured_at {runners : List StrategyRunner} (configs : configsOf runners = configured openings)
    {i : ℕ} {r : StrategyRunner} (found : runners[i]? = some r) :
    ∃ sc, makeSymbolConfigs[i]? = some sc ∧
      r.strategy.cfg = (runnerConfig sc (openings i).now).strategy := by
  have here : (configured openings)[i]? = some r.strategy.cfg := by
    rw [← configs, configsOf, List.getElem?_map, found]
    rfl
  simp only [configured, mainConfigs, List.getElem?_map, List.getElem?_mapIdx, Option.map_eq_some_iff] at here
  obtain ⟨config, ⟨sc, listed, rfl⟩, same⟩ := here
  exact ⟨sc, listed, same.symm⟩

structure Entering (openings : ℕ → Opening) (l : Live) : Prop where
  unpriced : Unpriced l.bot
  configs : configsOf l.bot.runners = configured openings
  handed : ∀ req ∈ l.handed, SingleEntry openings req

theorem handed_entering {l : Live} (entering : Entering openings l) (m : Move) :
    ∀ req ∈ handedBy libm l.bot m, SingleEntry openings req := by
  intro req member
  cases m with
  | drain i risk history =>
    simp only [handedBy] at member
    split at member
    · rename_i r _ found
      split at member
      · cases member
      · rename_i e rest waiting
        obtain ⟨effect, submits, request⟩ := List.mem_filterMap.mp member
        cases effect with
        | trip reason => cases request
        | submit isClose same =>
          cases request
          obtain ⟨sc, listed, config⟩ := configured_at entering.configs found
          have unpriced := entering.unpriced.runners r (List.mem_of_getElem? found)
          exact single_entry (r := { r with queue := rest }) (a := .dispatch e risk history) listed config
            unpriced.entry submits
    · cases member
  | market | bar | watch | reply | submitStep | report | streamStep => cases member

theorem entering_step (l : Live) (m : Move) (entering : Entering openings l) :
    Entering openings (l.step libm m) := by
  refine ⟨unpriced_step m entering.unpriced, (step_configs l.bot m).trans entering.configs, ?_⟩
  intro req member
  rcases List.mem_append.mp member with old | new
  · exact entering.handed req old
  · exact handed_entering entering m req new

theorem entering_init (libm : Libm) (accountId : String) (openings : ℕ → Opening) :
    Entering openings (.init libm accountId (mainConfigs openings)) := by
  refine ⟨unpriced_init accountId (mainConfigs openings), ?_, by simp [Live.init]⟩
  simp only [Live.init, Bot.init, configsOf, configured, List.map_map]
  exact List.map_congr_left (fun c _ => init_cfg libm c.1 accountId c.2)

end Requests

section Sent
variable {libm : Libm}

theorem live_bot (l : Live) (moves : List Move) :
    (run (Live.step libm) l moves).bot = run (Bot.step libm) l.bot moves := by
  induction moves generalizing l with
  | nil => rfl
  | cons m rest ih => exact ih (l.step libm m)

/-- Six days of twenty points and one of ten. -/
def narrowWeek : List Bar :=
  List.replicate 6 { openingBar with high := 110, low := 90 } ++ [{ openingBar with high := 105, low := 95 }]

def winterOpenings (i : ℕ) : Opening :=
  ⟨20458 * nsPerDay, .ok (if i = 0 then narrowWeek else [])⟩

/-- As `std::exp` rounds the exponents of main's five levels, and exact for whole powers. -/
def levelLibm : Libm :=
  { exp := fun x =>
      if x = -1 / 2 then 6065306597126334 / 10 ^ 16
      else if x = -1 then 36787944117144233 / 10 ^ 17
      else if x = -3 / 2 then 22313016014842982 / 10 ^ 17
      else if x = -2 then 1353352832366127 / 10 ^ 16
      else 1
    pow := fun base x => base ^ x.num.toNat }

def breakoutMoves : List Move :=
  let si := nearestContract "Si" 5 (20458 * nsPerDay)
  let day := 20458 * nsPerDay
  let drain : Move := .drain 0 none (.ok [])
  [.bar 0 { openingBar with symbol := si, low := 80, ts := day + openingBar.ts },
   .market 0 (.quote { symbol := si, bid := 110, ask := 112, ts := day + 436 * 60 * nsPerSec }), drain,
   .market 0 (.trade ⟨111, 10, true, day + 437 * 60 * nsPerSec⟩), drain,
   .market 0 (.book ⟨0, 110, 0, 100, 0, 0, day + 437 * 60 * nsPerSec⟩), drain]

end Sent

end FinamMainOrders
