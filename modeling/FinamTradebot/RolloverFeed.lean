import FinamTradebot.StrategyRunner

/-!
Book and trade events around a rollover. The threads of a runner interleave: a
subscription thread tests its stop flag, blocks in a read and pushes the events of the
message one by one; the rollover watchdog pushes its event into the same queue; the
strategy thread pops and, for a rollover, stops the old subscriptions, resets the
strategy and subscribes again, each a step of its own. An event carries no symbol in the
source; the origin written beside it here is read by the statements alone.
-/
namespace FinamRolloverFeed
open FinamInterfaces FinamOrderBook FinamConfluence Runs
open FinamRunner hiding Action

inductive FlowEvent where
  | book (e : BookLevelEvent)
  | trade (e : TradeEvent)

inductive Item where
  | flow (origin : Symbol) (e : FlowEvent)
  | quote (q : Quote)
  | order (upd : OrderUpdate)
  | rollover (newSymbol : Symbol)

inductive FeedPc where
  | testing
  | reading
  | emitting (pending : List FlowEvent)
  | ended

/-- A thread of `subscribe_book_events` or `subscribe_latest_trades`. -/
structure Feed where
  symbol : Symbol
  stop : Bool := false
  pc : FeedPc := .testing

/-- The strategy thread between two events, or inside `dispatch(RolloverEvent)`. -/
inductive StrategyPc where
  | idle
  | unsubscribing (newSymbol : Symbol)
  | resetting (newSymbol : Symbol)
  | setting (newSymbol : Symbol)
  | loading (newSymbol : Symbol)
  | subscribing (newSymbol : Symbol)

/-- `contract` is the contract of the last rollover that has reset the strategy, at first
    the one the runner was built with. -/
structure Threads where
  strategy : ConfluenceStrategy
  activeSymbol : Symbol
  contract : Symbol
  queue : List Item := []
  feeds : List Feed
  pc : StrategyPc := .idle

def subscriptions (symbol : Symbol) : List Feed := [{ symbol := symbol }, { symbol := symbol }]

def Threads.init (libm : Libm) (cfg : RunnerConfig) (history : Result (List Bar)) : Threads :=
  { strategy := loadHistory (ConfluenceStrategy.init libm cfg.strategy) cfg.strategy.symbol history
    activeSymbol := cfg.strategy.symbol
    contract := cfg.strategy.symbol
    feeds := subscriptions cfg.strategy.symbol }

def Threads.push (s : Threads) (item : Item) : Threads :=
  if s.queue.length < kQueueSize - 1 then { s with queue := s.queue ++ [item] } else s

inductive FeedMove where
  | test
  | receive (message : List FlowEvent)
  | disconnect
  | emit

def Threads.setFeed (s : Threads) (i : ℕ) (f : Feed) : Threads := { s with feeds := s.feeds.set i f }

/-- The stop flag is looked at between reads only. -/
def Threads.feedStep (s : Threads) (i : ℕ) (f : Feed) : FeedMove → Threads
  | .test =>
    match f.pc with
    | .testing => s.setFeed i { f with pc := if f.stop then .ended else .reading }
    | .reading | .emitting _ | .ended => s
  | .receive message =>
    match f.pc with
    | .reading => s.setFeed i { f with pc := .emitting message }
    | .testing | .emitting _ | .ended => s
  | .disconnect =>
    match f.pc with
    | .reading => s.setFeed i { f with pc := .testing }
    | .testing | .emitting _ | .ended => s
  | .emit =>
    match f.pc with
    | .emitting [] => s.setFeed i { f with pc := .testing }
    | .emitting (e :: rest) => (s.push (.flow f.symbol e)).setFeed i { f with pc := .emitting rest }
    | .testing | .reading | .ended => s

def applyFlow (libm : Libm) (s : ConfluenceStrategy) : FlowEvent → ConfluenceStrategy
  | .book e => (s.onBookEvent libm e).1
  | .trade e => (s.onTradeEvent e).1

/-- `drain_queue` takes the first item; what a signal asks of the other components is left
    out. -/
def Threads.pop (libm : Libm) (s : Threads) : Threads :=
  match s.queue with
  | [] => s
  | .flow _ e :: rest => { s with queue := rest, strategy := applyFlow libm s.strategy e }
  | .quote q :: rest =>
    { s with queue := rest, strategy := ((s.strategy.updateBbo q.bid q.ask).onQuote q).1 }
  | .order upd :: rest => { s with queue := rest, strategy := s.strategy.onOrderUpdate upd }
  | .rollover newSymbol :: rest => { s with queue := rest, pc := .unsubscribing newSymbol }

def Threads.strategyStep (libm : Libm) (s : Threads) (history : Result (List Bar)) : Threads :=
  match s.pc with
  | .idle => s.pop libm
  | .unsubscribing newSymbol =>
    { s with feeds := s.feeds.map (fun f => { f with stop := true }), pc := .resetting newSymbol }
  | .resetting newSymbol =>
    { s with strategy := s.strategy.onSessionOpen, contract := newSymbol, pc := .setting newSymbol }
  | .setting newSymbol => { s with activeSymbol := newSymbol, pc := .loading newSymbol }
  | .loading newSymbol =>
    { s with strategy := loadHistory s.strategy newSymbol history, pc := .subscribing newSymbol }
  | .subscribing newSymbol => { s with feeds := s.feeds ++ subscriptions newSymbol, pc := .idle }

/-- `watch` is a turn of the rollover watchdog with the contract it finds nearest. -/
inductive Action where
  | feed (i : ℕ) (move : FeedMove)
  | watch (next : Symbol)
  | quote (q : Quote)
  | order (upd : OrderUpdate)
  | bar (b : Bar)
  | strategy (history : Result (List Bar))

def Threads.step (libm : Libm) (s : Threads) : Action → Threads
  | .feed i move =>
    match s.feeds[i]? with
    | some f => s.feedStep i f move
    | none => s
  | .watch next =>
    if next.securityCode = s.activeSymbol.securityCode then s else s.push (.rollover next)
  | .quote q => s.push (.quote q)
  | .order upd => s.push (.order upd)
  | .bar b => { s with strategy := (s.strategy.onBar b).1 }
  | .strategy history => s.strategyStep libm history

/-- The contract of the flow event that an action applies to the strategy. -/
def Threads.applied (s : Threads) : Action → Option Symbol
  | .strategy _ =>
    match s.pc, s.queue with
    | .idle, .flow origin _ :: _ => some origin
    | _, _ => none
  | .feed _ _ | .watch _ | .quote _ | .order _ | .bar _ => none

def AppliesContract (s : Threads) (a : Action) : Prop := ∀ origin ∈ s.applied a, origin = s.contract

/-- The contract that the next item pushed will be dispatched for: that of the last
    rollover in the queue, else of the one under way, else the present one. -/
def lastRollover (contract : Symbol) : List Item → Symbol
  | [] => contract
  | .rollover newSymbol :: rest => lastRollover newSymbol rest
  | .flow _ _ :: rest | .quote _ :: rest | .order _ :: rest => lastRollover contract rest

def Threads.heading (s : Threads) : Symbol :=
  match s.pc with
  | .idle => s.contract
  | .unsubscribing newSymbol | .resetting newSymbol | .setting newSymbol | .loading newSymbol
  | .subscribing newSymbol => newSymbol

/-- The contract of the flow event that an action pushes into a queue with room for it. -/
def Threads.pushed (s : Threads) : Action → Option Symbol
  | .feed i .emit =>
    match s.feeds[i]? with
    | some ⟨symbol, _, .emitting (_ :: _)⟩ =>
      if s.queue.length < kQueueSize - 1 then some symbol else none
    | _ => none
  | .feed _ _ | .watch _ | .quote _ | .order _ | .bar _ | .strategy _ => none

/-- The condition on the state before a step: a subscription thread pushes no event of a
    contract that a rollover in the queue or under way leaves. -/
def NoStalePush (s : Threads) (a : Action) : Prop :=
  ∀ origin ∈ s.pushed a, origin = lastRollover s.heading s.queue

section Queue

/-- Every flow event in the queue is of the contract that is current when it is popped. -/
def Lined (contract : Symbol) : List Item → Prop
  | [] => True
  | .flow origin _ :: rest => origin = contract ∧ Lined contract rest
  | .rollover newSymbol :: rest => Lined newSymbol rest
  | .quote _ :: rest | .order _ :: rest => Lined contract rest

def Item.Fits (item : Item) (contract : Symbol) : Prop :=
  match item with
  | .flow origin _ => origin = contract
  | .quote _ | .order _ | .rollover _ => True

theorem lined_append {contract : Symbol} {queue : List Item} {item : Item}
    (lined : Lined contract queue) (fits : item.Fits (lastRollover contract queue)) :
    Lined contract (queue ++ [item]) := by
  induction queue generalizing contract with
  | nil =>
    cases item with
    | flow origin e => exact ⟨fits, trivial⟩
    | quote q => trivial
    | order upd => trivial
    | rollover newSymbol => trivial
  | cons first rest ih =>
    cases first with
    | flow origin e => exact ⟨lined.1, ih lined.2 fits⟩
    | quote q => exact ih lined fits
    | order upd => exact ih lined fits
    | rollover newSymbol => exact ih lined fits

end Queue

section Step
variable {libm : Libm} {s : Threads} {a : Action}

/-- Past the reset the contract is already that of the rollover under way. -/
def Threads.ResetDone (s : Threads) : Prop :=
  match s.pc with
  | .setting newSymbol | .loading newSymbol | .subscribing newSymbol => s.contract = newSymbol
  | .idle | .unsubscribing _ | .resetting _ => True

structure Current (s : Threads) : Prop where
  lined : Lined s.heading s.queue
  resetDone : s.ResetDone

theorem push_current {item : Item} (current : Current s)
    (fits : s.queue.length < kQueueSize - 1 → item.Fits (lastRollover s.heading s.queue)) :
    Current (s.push item) := by
  unfold Threads.push
  split
  · rename_i room
    exact ⟨lined_append current.lined (fits room), current.resetDone⟩
  · exact current

theorem pop_current (current : Current s) (idle : s.pc = .idle) : Current (s.pop libm) := by
  have lined := current.lined
  simp only [Threads.heading, idle] at lined
  unfold Threads.pop
  cases waiting : s.queue with
  | nil => exact current
  | cons first rest =>
    rw [waiting] at lined
    cases first with
    | flow origin e =>
      refine ⟨?_, by simp [Threads.ResetDone, idle]⟩
      simp only [Threads.heading, idle]
      exact lined.2
    | quote q =>
      refine ⟨?_, by simp [Threads.ResetDone, idle]⟩
      simp only [Threads.heading, idle]
      exact lined
    | order upd =>
      refine ⟨?_, by simp [Threads.ResetDone, idle]⟩
      simp only [Threads.heading, idle]
      exact lined
    | rollover newSymbol => exact ⟨lined, trivial⟩

theorem strategy_current (current : Current s) (history : Result (List Bar)) :
    Current (s.strategyStep libm history) := by
  obtain ⟨lined, resetDone⟩ := current
  unfold Threads.strategyStep
  unfold Threads.heading at lined
  unfold Threads.ResetDone at resetDone
  cases here : s.pc with
  | idle => exact pop_current ⟨by unfold Threads.heading; exact lined, resetDone⟩ here
  | unsubscribing newSymbol =>
    rw [here] at lined
    exact ⟨lined, trivial⟩
  | resetting newSymbol =>
    rw [here] at lined
    exact ⟨lined, rfl⟩
  | setting newSymbol =>
    rw [here] at lined resetDone
    exact ⟨lined, resetDone⟩
  | loading newSymbol =>
    rw [here] at lined resetDone
    exact ⟨lined, resetDone⟩
  | subscribing newSymbol =>
    rw [here] at lined resetDone
    refine ⟨?_, trivial⟩
    change Lined s.contract s.queue
    rw [resetDone]
    exact lined

/-- A step of a subscription thread changes its own state, and the queue when it pushes. -/
theorem feed_step_cases (s : Threads) (i : ℕ) (f : Feed) (move : FeedMove) :
    (∃ feeds, s.feedStep i f move = { s with feeds := feeds }) ∨
    ∃ e rest feeds, move = .emit ∧ f.pc = .emitting (e :: rest) ∧
      s.feedStep i f move = { s.push (.flow f.symbol e) with feeds := feeds } := by
  cases move with
  | test =>
    refine Or.inl ?_
    unfold Threads.feedStep
    cases f.pc <;> exact ⟨_, rfl⟩
  | receive message =>
    refine Or.inl ?_
    unfold Threads.feedStep
    cases f.pc <;> exact ⟨_, rfl⟩
  | disconnect =>
    refine Or.inl ?_
    unfold Threads.feedStep
    cases f.pc <;> exact ⟨_, rfl⟩
  | emit =>
    unfold Threads.feedStep
    cases here : f.pc with
    | testing => exact Or.inl ⟨_, rfl⟩
    | reading => exact Or.inl ⟨_, rfl⟩
    | ended => exact Or.inl ⟨_, rfl⟩
    | emitting pending =>
      cases pending with
      | nil => exact Or.inl ⟨_, rfl⟩
      | cons e rest => exact Or.inr ⟨e, rest, _, rfl, rfl, rfl⟩

theorem feed_current {i : ℕ} {f : Feed} {move : FeedMove} (current : Current s)
    (here : s.feeds[i]? = some f) (fresh : NoStalePush s (.feed i move)) :
    Current (s.feedStep i f move) := by
  rcases feed_step_cases s i f move with ⟨feeds, own⟩ | ⟨e, rest, feeds, rfl, emitting, pushes⟩
  · rw [own]
    exact ⟨current.lined, current.resetDone⟩
  · have next : Current (s.push (.flow f.symbol e)) := by
      refine push_current current ?_
      intro room
      apply fresh f.symbol
      obtain ⟨symbol, stop, pc⟩ := f
      obtain rfl : pc = .emitting (e :: rest) := emitting
      simp [Threads.pushed, here, room]
    rw [pushes]
    exact ⟨next.lined, next.resetDone⟩

theorem current_step (current : Current s) (fresh : NoStalePush s a) : Current (s.step libm a) := by
  cases a with
  | feed i move =>
    unfold Threads.step
    cases here : s.feeds[i]? with
    | none => simpa [here] using current
    | some f => simpa [here] using feed_current current here fresh
  | watch next =>
    unfold Threads.step
    dsimp only
    split
    · exact current
    · exact push_current current (fun _ => trivial)
  | quote q => exact push_current current (fun _ => trivial)
  | order upd => exact push_current current (fun _ => trivial)
  | bar b => exact ⟨current.lined, current.resetDone⟩
  | strategy history => exact strategy_current current history

theorem applies_contract (current : Current s) : AppliesContract s a := by
  intro origin applied
  cases a with
  | strategy history =>
    have lined := current.lined
    simp only [Threads.applied] at applied
    split at applied
    · rename_i idle waiting
      simp only [Threads.heading, idle, waiting] at lined
      cases applied
      exact lined.1
    · cases applied
  | feed i move => cases applied
  | watch next => cases applied
  | quote q => cases applied
  | order upd => cases applied
  | bar b => cases applied

theorem current_run {cfg : RunnerConfig} {history : Result (List Bar)} {acts : List Action}
    (fresh : Along (Threads.step libm) NoStalePush (.init libm cfg history) acts) :
    Along (Threads.step libm) AppliesContract (.init libm cfg history) acts ∧
      Visits (Threads.step libm) Current (.init libm cfg history) acts :=
  good_run_of_along (I := fun _ => True) (Q := Current)
    (fun _ _ _ current here => ⟨applies_contract current, current_step current here⟩)
    (fun _ _ _ _ _ => trivial) trivial ⟨trivial, trivial⟩ fresh

end Step

section Drain
variable {libm : Libm} {s : Threads}

def strategyTurns (n : ℕ) : List Action := List.replicate n (.strategy (.ok []))

theorem turns_add (n m : ℕ) : strategyTurns (n + m) = strategyTurns n ++ strategyTurns m :=
  (List.replicate_append_replicate).symm

/-- The strategy thread alone gets to a state between two events that has this contract and
    holds the rest of the queue. -/
def DrainsTo (libm : Libm) (s : Threads) (contract : Symbol) (rest : List Item) : Prop :=
  ∃ n, (run (Threads.step libm) s (strategyTurns n)).pc = .idle ∧
    (run (Threads.step libm) s (strategyTurns n)).contract = contract ∧
    (run (Threads.step libm) s (strategyTurns n)).queue = rest

theorem drains_after {contract : Symbol} {rest : List Item} (n : ℕ)
    (later : DrainsTo libm (run (Threads.step libm) s (strategyTurns n)) contract rest) :
    DrainsTo libm s contract rest := by
  obtain ⟨m, drained⟩ := later
  refine ⟨n + m, ?_⟩
  rw [turns_add, run_append]
  exact drained

/-- A rollover under way runs to its end. -/
theorem rollover_finishes (libm : Libm) (done : s.ResetDone) : DrainsTo libm s s.heading s.queue := by
  unfold Threads.ResetDone at done
  unfold Threads.heading
  cases here : s.pc with
  | idle => exact ⟨0, here, rfl, rfl⟩
  | unsubscribing newSymbol =>
    exact ⟨5, by simp [strategyTurns, run, Threads.step, Threads.strategyStep, here]⟩
  | resetting newSymbol =>
    exact ⟨4, by simp [strategyTurns, run, Threads.step, Threads.strategyStep, here]⟩
  | setting newSymbol =>
    rw [here] at done
    exact ⟨3, by simp [strategyTurns, run, Threads.step, Threads.strategyStep, here, done]⟩
  | loading newSymbol =>
    rw [here] at done
    exact ⟨2, by simp [strategyTurns, run, Threads.step, Threads.strategyStep, here, done]⟩
  | subscribing newSymbol =>
    rw [here] at done
    exact ⟨1, by simp [strategyTurns, run, Threads.step, Threads.strategyStep, here, done]⟩

theorem queue_drains (libm : Libm) {first rest : List Item} (idle : s.pc = .idle)
    (waiting : s.queue = first ++ rest) :
    DrainsTo libm s (lastRollover s.contract first) rest := by
  induction first generalizing s with
  | nil => exact ⟨0, idle, rfl, waiting⟩
  | cons item later ih =>
    have popped : run (Threads.step libm) s (strategyTurns 1) = s.pop libm := by
      simp [strategyTurns, run, Threads.step, Threads.strategyStep, idle]
    apply drains_after 1
    rw [popped]
    unfold Threads.pop
    rw [waiting]
    cases item with
    | flow origin e => exact ih idle rfl
    | quote q => exact ih idle rfl
    | order upd => exact ih idle rfl
    | rollover newSymbol =>
      apply drains_after 5
      simp only [strategyTurns, List.replicate, run, Threads.step, Threads.strategyStep]
      exact ih rfl rfl

theorem pushed_cases (libm : Libm) {a : Action} {origin : Symbol} (pushes : origin ∈ s.pushed a) :
    ∃ e, (s.step libm a).queue = s.queue ++ [.flow origin e] ∧ (s.step libm a).pc = s.pc ∧
      (s.step libm a).contract = s.contract := by
  unfold Threads.pushed at pushes
  split at pushes
  · rename_i i
    split at pushes
    · rename_i symbol stop e rest here
      split at pushes
      · rename_i room
        cases pushes
        refine ⟨e, ?_⟩
        simp [Threads.step, here, Threads.feedStep, Threads.push, room, Threads.setFeed]
      · cases pushes
    · cases pushes
  all_goals cases pushes

/-- A stale event in the queue reaches the strategy once the queue is drained. -/
theorem stale_push_applied (libm : Libm) {a : Action} (done : s.ResetDone) (stale : ¬NoStalePush s a) :
    ∃ n, ¬Along (Threads.step libm) AppliesContract (s.step libm a) (strategyTurns n) := by
  unfold NoStalePush at stale
  push Not at stale
  obtain ⟨origin, pushes, other⟩ := stale
  obtain ⟨e, queued, samePc, sameContract⟩ := pushed_cases libm pushes
  have heading : (s.step libm a).heading = s.heading := by
    simp only [Threads.heading, samePc, sameContract]
  have kept : (s.step libm a).ResetDone := by
    simpa only [Threads.ResetDone, samePc, sameContract] using done
  obtain ⟨n, idle, contract, queue⟩ := rollover_finishes libm kept
  obtain ⟨m, idle', contract', queue'⟩ := queue_drains libm idle (queue.trans queued)
  rw [contract, heading] at contract'
  refine ⟨n + (m + 1), ?_⟩
  rw [turns_add, turns_add, along_append, along_append]
  rintro ⟨-, -, last, -⟩
  refine other ((last origin ?_).trans contract')
  simp [Threads.applied, idle', queue']

end Drain

/-- In every interleaving in which no subscription thread pushes an event of a contract
    that a queued or running rollover leaves, the strategy is only given events of the
    contract it was last reset for; and the first such push of an interleaving reaches the
    strategy when the queue is drained. -/
theorem no_stale_contract_data (libm : Libm) (cfg : RunnerConfig) (history : Result (List Bar))
    (acts : List Action) :
    let start := Threads.init libm cfg history
    (Along (Threads.step libm) NoStalePush start acts →
      Along (Threads.step libm) AppliesContract start acts) ∧
    ∀ a, Along (Threads.step libm) NoStalePush start acts →
      ¬NoStalePush (run (Threads.step libm) start acts) a →
      ∃ n, ¬Along (Threads.step libm) AppliesContract start (acts ++ a :: strategyTurns n) := by
  intro start
  refine ⟨fun fresh => (current_run fresh).1, ?_⟩
  intro a fresh stale
  have current : Current (run (Threads.step libm) start acts) := visits_last (current_run fresh).2
  obtain ⟨n, applied⟩ := stale_push_applied libm current.resetDone stale
  refine ⟨n, ?_⟩
  rw [along_append]
  rintro ⟨-, -, later⟩
  exact applied later

instance (s : Threads) (a : Action) : Decidable (AppliesContract s a) :=
  inferInstanceAs (Decidable (∀ origin ∈ s.applied a, _))

instance (s : Threads) (a : Action) : Decidable (NoStalePush s a) :=
  inferInstanceAs (Decidable (∀ origin ∈ s.pushed a, _))

def september : Symbol := ⟨"Si-9.26", "FORTS"⟩

def buyTrade : FlowEvent := .trade { price := 111, volume := 10, isBuy := true, ts := 0 }

def delivers (i : ℕ) : List Action := [.feed i .test, .feed i (.receive [buyTrade]), .feed i .emit]

/-- The old subscriptions are silent from the rollover on, and the new one delivers. -/
theorem silent_rollover_clean :
    let start := Threads.init flatLibm { strategy := makeCfg } (.ok [])
    let before := .watch september :: strategyTurns 6 ++ delivers 2
    (run (Threads.step flatLibm) start before).applied (.strategy (.ok [])) = some september ∧
      Along (Threads.step flatLibm) AppliesContract start (before ++ strategyTurns 1) :=
  ⟨by decide +kernel,
    (no_stale_contract_data flatLibm { strategy := makeCfg } (.ok []) _).1 (by decide +kernel)⟩

/-- A June trade queued behind the rollover to September is applied after the reset. -/
theorem june_trade_after_rollover :
    let start := Threads.init flatLibm { strategy := makeCfg } (.ok [])
    let before := .watch september :: delivers 1 ++ strategyTurns 6
    let s := run (Threads.step flatLibm) start before
    s.contract = september ∧ s.applied (.strategy (.ok [])) = some makeCfg.symbol ∧
      makeCfg.symbol ≠ september ∧
      ¬Along (Threads.step flatLibm) AppliesContract start (before ++ strategyTurns 1) := by
  decide +kernel

end FinamRolloverFeed
