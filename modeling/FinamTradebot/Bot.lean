import FinamTradebot.OrderFlow
import FinamTradebot.StrategyRunner

/-!
The bot that main.cpp builds: runners that share one order client, whose updates are
broadcast to the queues of all runners. Each queue is drained by its own strategy
thread, which waits inside `submit` until the call returns.
-/
namespace FinamBot
open FinamInterfaces FinamOrderBook FinamConfluence FinamOrderClient FinamOrderFlow Runs
open FinamRunner hiding Action

structure Bot where
  flow : OrderFlow
  runners : List StrategyRunner
  waiting : ℕ → Option ℤ := fun _ => none

def Bot.init (libm : Libm) (accountId : String)
    (configs : List (RunnerConfig × Result (List Bar))) : Bot :=
  { flow := .init accountId
    runners := configs.map (fun c => .init libm c.1 accountId c.2) }

/-- `market` is an event of a subscription, `watch` a turn of the rollover watchdog with
    the contract it finds nearest, `drain` a turn of the strategy thread. -/
inductive Move where
  | market (i : ℕ) (e : MdEvent)
  | bar (i : ℕ) (b : Bar)
  | watch (i : ℕ) (next : Symbol)
  | drain (i : ℕ) (risk : RiskCheck) (history : Result (List Bar))
  | reply (localId : ℤ) (result : Result PlaceReply) (now : ℤ)
  | submitStep (localId : ℤ)
  | report (o : OrderReport) (now : ℤ)
  | streamStep

def isMarket : MdEvent → Bool
  | .book _ | .trade _ | .quote _ => true
  | .order _ | .rollover _ => false

def Bot.setRunner (b : Bot) (i : ℕ) (r : StrategyRunner) : Bot :=
  { b with runners := b.runners.set i r }

def Bot.busy (b : Bot) (i : ℕ) : Bool :=
  match b.waiting i with
  | none => false
  | some localId => (b.flow.submits localId).isSome

/-- A trip of the circuit breaker leaves the modelled state as it is. -/
def Bot.perform (b : Bot) (i : ℕ) : Effect → Bot
  | .trip _ => b
  | .submit _ req =>
    match validate req with
    | some _ => b
    | none =>
      { b with
        flow := b.flow.submit req
        waiting := Function.update b.waiting i (some b.flow.client.idCounter) }

def Bot.drain (libm : Libm) (b : Bot) (i : ℕ) (risk : RiskCheck) (history : Result (List Bar)) :
    Bot :=
  match b.busy i, b.runners[i]? with
  | false, some r =>
    match r.queue with
    | [] => b
    | e :: rest =>
      let done := { r with queue := rest }.dispatch libm risk history e
      done.2.foldl (fun b effect => b.perform i effect) (b.setRunner i done.1)
  | _, _ => b

def broadcast (runners : List StrategyRunner) (upd : OrderUpdate) : List StrategyRunner :=
  runners.map (fun r => (makeOrderCallback true r upd).runner)

def Bot.flowStep (b : Bot) (a : Action) : Bot :=
  let next := b.flow.step a
  let updates := (next.delivered.drop b.flow.delivered.length).map Prod.snd
  { b with flow := next, runners := updates.foldl broadcast b.runners }

def Bot.step (libm : Libm) (b : Bot) : Move → Bot
  | .market i e =>
    match isMarket e, b.runners[i]? with
    | true, some r => b.setRunner i (r.push e).1
    | _, _ => b
  | .bar i bar =>
    match b.runners[i]? with
    | some r => b.setRunner i { r with strategy := (r.strategy.onBar bar).1 }
    | none => b
  | .watch i next =>
    match b.runners[i]? with
    | some r => b.setRunner i (r.checkRollover next).1
    | none => b
  | .drain i risk history => b.drain libm i risk history
  | .reply localId result now => b.flowStep (.reply localId result now)
  | .submitStep localId => b.flowStep (.submitStep localId)
  | .report o now => b.flowStep (.report o now)
  | .streamStep => b.flowStep .streamStep

section Effects

theorem perform_runners (b : Bot) (i : ℕ) (effect : Effect) :
    (b.perform i effect).runners = b.runners := by
  cases effect with
  | trip reason => rfl
  | submit isClose req =>
    simp only [Bot.perform]
    split <;> rfl

theorem performs_runners (i : ℕ) (effects : List Effect) (b : Bot) :
    (effects.foldl (fun b effect => b.perform i effect) b).runners = b.runners := by
  induction effects generalizing b with
  | nil => rfl
  | cons effect rest ih => exact (ih (b.perform i effect)).trans (perform_runners b i effect)

end Effects

section Unpriced
variable {libm : Libm} {b : Bot} {r : StrategyRunner}

structure NoPrice (r : StrategyRunner) : Prop where
  entry : r.strategy.entryPrice = 0
  queue : ∀ upd, MdEvent.order upd ∈ r.queue → upd.price = 0

/-- Prices are zero everywhere between the order client and the strategies. -/
structure Unpriced (b : Bot) : Prop where
  flow : Carries (fun req => req.price = 0) (fun st => st.price = 0) (fun upd => upd.price = 0)
    b.flow
  runners : ∀ r ∈ b.runners, NoPrice r

theorem push_no_price {e : MdEvent} (unpriced : NoPrice r)
    (event : ∀ upd, e = .order upd → upd.price = 0) : NoPrice (r.push e).1 := by
  unfold StrategyRunner.push
  split
  · refine ⟨unpriced.entry, fun upd member => ?_⟩
    rcases List.mem_append.mp member with old | new
    · exact unpriced.queue upd old
    · exact event upd (List.mem_singleton.mp new).symm
  · exact unpriced

theorem callback_no_price {upd : OrderUpdate} (unpriced : NoPrice r) (free : upd.price = 0) :
    NoPrice (makeOrderCallback true r upd).runner := by
  unfold makeOrderCallback
  split
  · refine push_no_price unpriced ?_
    rintro other ⟨⟩
    exact free
  · exact unpriced

theorem dispatch_entry_price (libm : Libm) (r : StrategyRunner) (e : MdEvent) (risk : RiskCheck)
    (history : Result (List Bar)) :
    (r.dispatch libm risk history e).1.strategy.entryPrice = 0 ∨
      (r.dispatch libm risk history e).1.strategy.entryPrice = r.strategy.entryPrice ∨
      ∃ upd, e = .order upd ∧
        (r.dispatch libm risk history e).1.strategy.entryPrice = upd.price := by
  cases e with
  | book e =>
    obtain ⟨book, spoof, signalTs, eq⟩ := book_frame libm r.strategy e
    exact Or.inr (Or.inl (by simp [StrategyRunner.dispatch, eq]))
  | trade e =>
    obtain ⟨mid, flow, signalTs, eq⟩ := trade_frame r.strategy e
    exact Or.inr (Or.inl (by simp [StrategyRunner.dispatch, eq]))
  | quote q =>
    obtain ⟨ctx, opened, eq⟩ := quote_frame (r.strategy.updateBbo q.bid q.ask) q
    simp only [StrategyRunner.dispatch, eq, after_reset_entryPrice]
    split
    · exact Or.inl rfl
    · exact Or.inr (Or.inl rfl)
  | order upd =>
    obtain ⟨entry, eq, kept | set⟩ := update_frame r.strategy upd
    · exact Or.inr (Or.inl (by simp [StrategyRunner.dispatch, eq, kept]))
    · exact Or.inr (Or.inr ⟨upd, rfl, by simp [StrategyRunner.dispatch, eq, set]⟩)
  | rollover newSymbol =>
    obtain ⟨ctx, eq⟩ := history_frame r.strategy.onSessionOpen newSymbol history
    exact Or.inl (by simp [StrategyRunner.dispatch, eq]; rfl)

theorem dispatch_no_price {e : MdEvent} {rest : List MdEvent} {risk : RiskCheck}
    {history : Result (List Bar)} (unpriced : NoPrice r) (waiting : r.queue = e :: rest) :
    NoPrice ({ r with queue := rest }.dispatch libm risk history e).1 := by
  constructor
  · rcases dispatch_entry_price libm { r with queue := rest } e risk history with
      zero | same | ⟨upd, rfl, price⟩
    · exact zero
    · exact same.trans unpriced.entry
    · exact price.trans (unpriced.queue upd (by simp [waiting]))
  · intro upd member
    rw [dispatch_queue] at member
    exact unpriced.queue upd (by simp [waiting, show MdEvent.order upd ∈ rest from member])

theorem submit_price {e : MdEvent} {risk : RiskCheck} {history : Result (List Bar)}
    {isClose : Bool} {req : OrderRequest}
    (submits : Effect.submit isClose req ∈ (r.dispatch libm risk history e).2) :
    req.price = 0 := by
  rcases submit_cases (a := .dispatch e risk history) submits with ⟨-, -, rfl⟩ | ⟨-, enters⟩
  · rfl
  · exact enters.price

theorem set_runner_unpriced {i : ℕ} {next : StrategyRunner} (unpriced : Unpriced b)
    (runner : NoPrice next) : Unpriced (b.setRunner i next) := by
  refine ⟨unpriced.flow, fun r member => ?_⟩
  rcases List.mem_or_eq_of_mem_set member with old | rfl
  · exact unpriced.runners r old
  · exact runner

theorem price_hands : Hands (fun req => req.price = 0) (fun st => st.price = 0) :=
  ⟨fun _ _ _ _ price => price, fun _ _ _ => rfl⟩

theorem flow_unpriced {a : Action} (unpriced : Unpriced b)
    (requests : ∀ req, a = .submit req → req.price = 0) :
    Carries (fun req => req.price = 0) (fun st => st.price = 0) (fun upd => upd.price = 0)
      (b.flow.step a) :=
  carries_step price_hands unpriced.flow requests (fun _ price _ => price)

theorem perform_unpriced {i : ℕ} {effect : Effect} (unpriced : Unpriced b)
    (free : ∀ isClose req, effect = .submit isClose req → req.price = 0) :
    Unpriced (b.perform i effect) := by
  cases effect with
  | trip reason => exact unpriced
  | submit isClose req =>
    simp only [Bot.perform]
    split
    · exact unpriced
    · refine ⟨flow_unpriced (a := .submit req) unpriced ?_, unpriced.runners⟩
      rintro other ⟨⟩
      exact free isClose req rfl

theorem performs_unpriced {i : ℕ} {effects : List Effect} (unpriced : Unpriced b)
    (free : ∀ isClose req, Effect.submit isClose req ∈ effects → req.price = 0) :
    Unpriced (effects.foldl (fun b effect => b.perform i effect) b) := by
  induction effects generalizing b with
  | nil => exact unpriced
  | cons effect rest ih =>
    refine ih (perform_unpriced unpriced ?_) fun isClose req later => ?_
    · rintro isClose req rfl
      exact free isClose req (by simp)
    · exact free isClose req (by simp [later])

theorem drain_unpriced {i : ℕ} {risk : RiskCheck} {history : Result (List Bar)}
    (unpriced : Unpriced b) : Unpriced (b.drain libm i risk history) := by
  unfold Bot.drain
  split
  · rename_i r _ found
    split
    · exact unpriced
    · rename_i e rest waiting
      have runner := unpriced.runners r (List.mem_of_getElem? found)
      exact performs_unpriced (set_runner_unpriced unpriced (dispatch_no_price runner waiting))
        (fun isClose req => submit_price)
  · exact unpriced

theorem broadcasts_no_price {updates : List OrderUpdate} {runners : List StrategyRunner}
    (free : ∀ upd ∈ updates, upd.price = 0) (unpriced : ∀ r ∈ runners, NoPrice r) :
    ∀ r ∈ updates.foldl broadcast runners, NoPrice r := by
  induction updates generalizing runners with
  | nil => exact unpriced
  | cons upd rest ih =>
    refine ih (fun later member => free later (by simp [member])) fun r member => ?_
    obtain ⟨old, known, rfl⟩ := List.mem_map.mp member
    exact callback_no_price (unpriced old known) (free upd (by simp))

theorem flow_step_unpriced {a : Action} (unpriced : Unpriced b)
    (requests : ∀ req, a = .submit req → req.price = 0) : Unpriced (b.flowStep a) := by
  have carries := flow_unpriced unpriced requests
  refine ⟨carries, broadcasts_no_price (fun upd member => ?_) unpriced.runners⟩
  obtain ⟨⟨localId, same⟩, delivered, rfl⟩ := List.mem_map.mp member
  exact carries.delivered localId same (List.mem_of_mem_drop delivered)

theorem unpriced_step (m : Move) (unpriced : Unpriced b) : Unpriced (b.step libm m) := by
  cases m with
  | market i e =>
    simp only [Bot.step]
    split
    · rename_i r market found
      refine set_runner_unpriced unpriced
        (push_no_price (unpriced.runners r (List.mem_of_getElem? found)) ?_)
      rintro upd rfl
      simp [isMarket] at market
    · exact unpriced
  | bar i bar =>
    simp only [Bot.step]
    split
    · rename_i r found
      have runner := unpriced.runners r (List.mem_of_getElem? found)
      obtain ⟨ctx, opened, eq⟩ := bar_frame r.strategy bar
      refine set_runner_unpriced unpriced ⟨?_, runner.queue⟩
      simp [eq, runner.entry]
    · exact unpriced
  | watch i next =>
    simp only [Bot.step, StrategyRunner.checkRollover]
    split
    · rename_i r found
      have runner := unpriced.runners r (List.mem_of_getElem? found)
      split
      · exact set_runner_unpriced unpriced runner
      · exact set_runner_unpriced unpriced (push_no_price runner (by simp))
    · exact unpriced
  | drain i risk history => exact drain_unpriced unpriced
  | reply localId result now => exact flow_step_unpriced unpriced (by simp)
  | submitStep localId => exact flow_step_unpriced unpriced (by simp)
  | report o now => exact flow_step_unpriced unpriced (by simp)
  | streamStep => exact flow_step_unpriced unpriced (by simp)

theorem unpriced_init (accountId : String) (configs : List (RunnerConfig × Result (List Bar))) :
    Unpriced (.init libm accountId configs) := by
  refine ⟨carries_init accountId, fun r member => ?_⟩
  obtain ⟨config, -, rfl⟩ := List.mem_map.mp member
  exact ⟨init_entryPrice libm config.1 accountId config.2, by simp [StrategyRunner.init]⟩

theorem unpriced_never_closes (unpriced : NoPrice r) (q : Quote) :
    (r.strategy.onQuote q).2.direction ≠ .close := by
  have stays : ¬ r.strategy.QuoteExits q := by
    rintro ⟨-, -, -, priced, -⟩
    rw [unpriced.entry] at priced
    norm_num at priced
  rw [quote_signal_of_no_exit stays]
  simp [noSignal]

end Unpriced

section StopLoss

/-- A market order that the bot has placed in the runner's symbol was reported filled. -/
def EntryFilled (b : Bot) (r : StrategyRunner) : Prop :=
  ∃ st ∈ b.flow.taken, st.type = .market ∧ st.status = .filled ∧ 0 < st.qtyFilled ∧
    st.symbol = r.strategy.cfg.symbol ∧
      ∃ msg ∈ b.flow.placed, msg.clientOrderId = toString st.localId ∧ msg.type = .market

def LosingQuote (r : StrategyRunner) (price : ℚ) (q : Quote) : Prop :=
  let distance := r.strategy.cfg.slTicks * r.strategy.cfg.tickSize
  q.symbol = r.strategy.cfg.symbol ∧ r.strategy.opensSession q.ts = false ∧
    ((0 < r.strategy.position ∧ quoteMid q < price - distance) ∨
      (r.strategy.position < 0 ∧ price + distance < quoteMid q))

instance (b : Bot) (r : StrategyRunner) : Decidable (EntryFilled b r) :=
  inferInstanceAs (Decidable (∃ st ∈ b.flow.taken, _))

instance (r : StrategyRunner) (price : ℚ) (q : Quote) : Decidable (LosingQuote r price q) :=
  inferInstanceAs (Decidable (_ ∧ _ ∧ _))

def StopLossLive (b : Bot) (r : StrategyRunner) (price : ℚ) (q : Quote) : Prop :=
  EntryFilled b r → 0 < price → LosingQuote r price q →
    (r.strategy.onQuote q).2.direction = .close

instance (b : Bot) (r : StrategyRunner) (price : ℚ) (q : Quote) :
    Decidable (StopLossLive b r price q) :=
  inferInstanceAs (Decidable (_ → _ → _ → _))

/-- In every run of the bot and for every quote that should stop a filled entry out, the
    strategy returns no Close signal. -/
theorem stop_loss_never_live (libm : Libm) (accountId : String)
    (configs : List (RunnerConfig × Result (List Bar))) (moves : List Move) (r : StrategyRunner)
    (price : ℚ) (q : Quote) :
    let b := run (Bot.step libm) (.init libm accountId configs) moves
    r ∈ b.runners → EntryFilled b r → 0 < price → LosingQuote r price q →
      ¬ StopLossLive b r price q := by
  intro b running entered positive losing live
  have unpriced : Unpriced b := run_invariant (fun b m => unpriced_step m) moves
    (unpriced_init accountId configs)
  exact unpriced_never_closes (unpriced.runners r running) q (live entered positive losing)

def entryMoves : List Move :=
  let drain : Move := .drain 0 none (.ok [])
  [.bar 0 openingBar, .market 0 (.quote (makeQuote 110 111 (436 * 60 * nsPerSec))), drain,
   .market 0 (flowTrade 1), drain, .market 0 (flowBook 2), drain,
   .reply 1 (.ok ⟨"770", .new⟩) 0, .submitStep 1, .submitStep 1, .submitStep 1,
   .report ⟨"770", "1", .buy, .market, .filled, "1", "1"⟩ 0, .streamStep, .streamStep,
   .streamStep, drain, drain]

def enteredBot : Bot :=
  run (Bot.step flatLibm)
    (.init flatLibm "ACC001" [({ strategy := { makeCfg with baseQty := 2 } }, .ok [])]) entryMoves

def enteredRunner : StrategyRunner := enteredBot.runners.get ⟨0, by decide +kernel⟩

theorem entered_runner_not_stopped :
    enteredRunner.strategy.position = 1 ∧
      ¬ StopLossLive enteredBot enteredRunner 110 (makeQuote 49 51 (440 * 60 * nsPerSec)) :=
  ⟨by decide +kernel, stop_loss_never_live flatLibm "ACC001" _ entryMoves enteredRunner 110 _
    (List.get_mem _ _) (by decide +kernel) (by decide +kernel) (by decide +kernel)⟩

/-- Bought at 110, quoted around 50: thirty ticks of stop distance and no signal. -/
theorem sixty_ticks_lost_no_stop :
    let q := makeQuote 49 51 (440 * 60 * nsPerSec)
    EntryFilled enteredBot enteredRunner ∧ LosingQuote enteredRunner 110 q ∧
      (enteredRunner.strategy.onQuote q).2 = noSignal ∧
      ¬ StopLossLive enteredBot enteredRunner 110 q := by
  decide +kernel

end StopLoss

end FinamBot
