import FinamTradebot.Bot
import FinamTradebot.WireOrders

/-!
The dry run of main.cpp: the same runners over an executor that only logs, with no order
client and so no updates. A live run is compared with the dry run over the market data its
queues have taken, for as long as no strategy has been told of a fill.
-/
namespace FinamDryRun
open FinamInterfaces FinamConfluence FinamOrderClient FinamOrderFlow FinamBot Runs
open FinamRunner hiding Action
open FinamOrderBook (Libm)

/-- `submitted` is the log; the id is returned to `handle_signal`, which drops it. -/
structure DryRunExecutor where
  id : ℤ := 0
  submitted : List OrderRequest := []

def DryRunExecutor.submit (x : DryRunExecutor) (req : OrderRequest) : DryRunExecutor × Result ℤ :=
  ({ id := x.id + 1, submitted := x.submitted ++ [req] }, .ok (x.id + 1))

structure DryBot where
  executor : DryRunExecutor := {}
  runners : List StrategyRunner

def DryBot.init (libm : Libm) (accountId : String) (configs : List (RunnerConfig × Result (List Bar))) :
    DryBot :=
  { runners := configs.map (fun c => .init libm c.1 accountId c.2) }

def DryBot.setRunner (b : DryBot) (i : ℕ) (r : StrategyRunner) : DryBot :=
  { b with runners := b.runners.set i r }

def DryBot.perform (b : DryBot) : Effect → DryBot
  | .trip _ => b
  | .submit _ req => { b with executor := (b.executor.submit req).1 }

def DryBot.drain (libm : Libm) (b : DryBot) (i : ℕ) (risk : RiskCheck) (history : Result (List Bar)) :
    DryBot :=
  match b.runners[i]? with
  | some r =>
    match r.queue with
    | [] => b
    | e :: rest =>
      let done := { r with queue := rest }.dispatch libm risk history e
      done.2.foldl DryBot.perform (b.setRunner i done.1)
  | none => b

/-- There is no order client to reply or to report. -/
def DryBot.step (libm : Libm) (b : DryBot) : Move → DryBot
  | .market i e =>
    match isMarket e, b.runners[i]? with
    | true, some r => b.setRunner i (r.push e).1
    | _, _ => b
  | .bar i bar =>
    match b.runners[i]? with
    | some r => b.setRunner i { r with strategy := (r.strategy.onBar bar).1 }
    | none => b
  | .watch i next =>
    match b.runners[i]? with
    | some r => b.setRunner i (r.checkRollover next).1
    | none => b
  | .drain i risk history => b.drain libm i risk history
  | .reply _ _ _ | .submitStep _ | .report _ _ | .streamStep => b

section Live

def requestOf : Effect → Option OrderRequest
  | .trip _ => none
  | .submit _ req => some req

/-- The requests that a move of the live bot hands to `OrderClient::submit`. -/
def handedBy (libm : Libm) (b : Bot) : Move → List OrderRequest
  | .drain i risk history =>
    match b.busy i, b.runners[i]? with
    | false, some r =>
      match r.queue with
      | [] => []
      | e :: rest => ({ r with queue := rest }.dispatch libm risk history e).2.filterMap requestOf
    | _, _ => []
  | .market _ _ | .bar _ _ | .watch _ _ | .reply _ _ _ | .submitStep _ | .report _ _ | .streamStep => []

structure Live where
  bot : Bot
  handed : List OrderRequest := []

def Live.init (libm : Libm) (accountId : String) (configs : List (RunnerConfig × Result (List Bar))) :
    Live :=
  { bot := .init libm accountId configs }

def Live.step (libm : Libm) (l : Live) (m : Move) : Live :=
  { bot := l.bot.step libm m, handed := l.handed ++ handedBy libm l.bot m }

def orderOf : MdEvent → Option OrderUpdate
  | .order upd => some upd
  | .book _ | .trade _ | .quote _ | .rollover _ => none

/-- The event that a drain pops: none while the thread waits inside `submit`. -/
def popped (b : Bot) (i : ℕ) : Option MdEvent :=
  if b.busy i then none else b.runners[i]?.bind (fun r => r.queue.head?)

def hasRoom (b : Bot) (i : ℕ) : Bool :=
  b.runners[i]?.any (fun r => decide (r.queue.length < kQueueSize - 1))

/-- What the dry run does at a move of the live bot: it takes the market data that the live
    queue takes, and drains what is no update when the live thread does. -/
def echo (l : Live) : Move → List Move
  | .market i e => if hasRoom l.bot i then [.market i e] else []
  | .bar i bar => [.bar i bar]
  | .watch i next => if hasRoom l.bot i then [.watch i next] else []
  | .drain i risk history =>
    match popped l.bot i with
    | none | some (.order _) => []
    | some (.book _) | some (.trade _) | some (.quote _) | some (.rollover _) => [.drain i risk history]
  | .reply _ _ _ | .submitStep _ | .report _ _ | .streamStep => []

/-- The strategy thread does not pass an update on that says Filled. -/
def Unfilled (l : Live) : Move → Prop
  | .drain i _ _ => ∀ upd ∈ (popped l.bot i).bind orderOf, upd.status ≠ .filled
  | _ => True

instance (l : Live) : (m : Move) → Decidable (Unfilled l m)
  | .drain i _ _ => inferInstanceAs (Decidable (∀ upd ∈ (popped l.bot i).bind orderOf, upd.status ≠ .filled))
  | .market _ _ | .bar _ _ | .watch _ _ | .reply _ _ _ | .submitStep _ | .report _ _ | .streamStep =>
    .isTrue trivial

end Live

section Image
variable {libm : Libm} {r : StrategyRunner}

def withoutUpdates (r : StrategyRunner) : StrategyRunner :=
  { r with queue := r.queue.filter (fun e => (orderOf e).isNone) }

def dryOf (l : Live) : DryBot :=
  { executor := ⟨l.handed.length, l.handed⟩
    runners := l.bot.runners.map withoutUpdates }

theorem push_without {e : MdEvent} (data : orderOf e = none) (room : r.queue.length < kQueueSize - 1) :
    withoutUpdates (r.push e).1 = ((withoutUpdates r).push e).1 := by
  have shorter : (r.queue.filter (fun e => (orderOf e).isNone)).length < kQueueSize - 1 :=
    (List.length_filter_le _ _).trans_lt room
  simp [StrategyRunner.push, room, shorter, withoutUpdates, data]

theorem refused_push {e : MdEvent} (full : ¬ r.queue.length < kQueueSize - 1) : (r.push e).1 = r := by
  simp [StrategyRunner.push, full]

theorem check_rollover_without (next : Symbol) (room : r.queue.length < kQueueSize - 1) :
    withoutUpdates (r.checkRollover next).1 = ((withoutUpdates r).checkRollover next).1 := by
  have active : (withoutUpdates r).activeSymbol = r.activeSymbol := rfl
  simp only [StrategyRunner.checkRollover, active]
  split
  · rfl
  · exact push_without rfl room

theorem refused_rollover (next : Symbol) (full : ¬ r.queue.length < kQueueSize - 1) :
    (r.checkRollover next).1 = r := by
  unfold StrategyRunner.checkRollover
  split
  · rfl
  · exact refused_push full

theorem callback_without (r : StrategyRunner) (upd : OrderUpdate) :
    withoutUpdates (makeOrderCallback true r upd).runner = withoutUpdates r := by
  unfold makeOrderCallback
  split
  · rcases push_cases r (.order upd) with ⟨-, eq⟩ | ⟨-, eq⟩
    · simp [eq, withoutUpdates, orderOf]
    · rw [eq]
  · rfl

theorem broadcasts_without (updates : List OrderUpdate) (runners : List StrategyRunner) :
    (updates.foldl broadcast runners).map withoutUpdates = runners.map withoutUpdates := by
  induction updates generalizing runners with
  | nil => rfl
  | cons upd rest ih =>
    rw [List.foldl_cons, ih, broadcast, List.map_map]
    exact List.map_congr_left (fun r _ => callback_without r upd)

/-- A dispatch neither reads nor writes the queue. -/
theorem dispatch_other_queue (q : List MdEvent) (e : MdEvent) (risk : RiskCheck)
    (history : Result (List Bar)) :
    { r with queue := q }.dispatch libm risk history e =
      ({ (r.dispatch libm risk history e).1 with queue := q }, (r.dispatch libm risk history e).2) := by
  cases e <;> rfl

theorem unfilled_update {upd : OrderUpdate} (unfilled : upd.status ≠ .filled) (s : ConfluenceStrategy) :
    s.onOrderUpdate upd = s := by
  simp [ConfluenceStrategy.onOrderUpdate, unfilled]

theorem dry_performs (effects : List Effect) (b : DryBot) :
    effects.foldl DryBot.perform b =
      { executor :=
          ⟨b.executor.id + (effects.filterMap requestOf).length,
            b.executor.submitted ++ effects.filterMap requestOf⟩
        runners := b.runners } := by
  induction effects generalizing b with
  | nil => simp
  | cons effect rest ih =>
    rw [List.foldl_cons, ih]
    cases effect with
    | trip reason => rfl
    | submit isClose req =>
      simp [DryBot.perform, requestOf, DryRunExecutor.submit]
      ring

end Image

section Step
variable {libm : Libm} {l : Live} {i : ℕ} {r next : StrategyRunner}

theorem set_same {runners : List StrategyRunner} (found : runners[i]? = some r) : runners.set i r = runners := by
  obtain ⟨inside, rfl⟩ := List.getElem?_eq_some_iff.mp found
  exact List.set_getElem_self inside

theorem dry_found (found : l.bot.runners[i]? = some r) :
    (dryOf l).runners[i]? = some (withoutUpdates r) := by
  simp [dryOf, found]

theorem dry_missing (missing : l.bot.runners[i]? = none) : (dryOf l).runners[i]? = none := by
  simp [dryOf, missing]

theorem dry_set (l : Live) (i : ℕ) (next : StrategyRunner) :
    (dryOf l).setRunner i (withoutUpdates next) = dryOf { l with bot := l.bot.setRunner i next } := by
  simp [dryOf, DryBot.setRunner, Bot.setRunner]

theorem dry_unchanged (found : l.bot.runners[i]? = some r) :
    dryOf { l with bot := l.bot.setRunner i r } = dryOf l := by
  simp [dryOf, Bot.setRunner, set_same found]

theorem room_of_found (found : l.bot.runners[i]? = some r) :
    hasRoom l.bot i = decide (r.queue.length < kQueueSize - 1) := by
  simp [hasRoom, found]

theorem follow_market (i : ℕ) (e : MdEvent) :
    run (DryBot.step libm) (dryOf l) (echo l (.market i e)) = dryOf (l.step libm (.market i e)) := by
  simp only [Live.step, handedBy, List.append_nil, Bot.step, echo]
  cases market : isMarket e with
  | false =>
    split <;> simp [run, DryBot.step, market]
  | true =>
    have data : orderOf e = none := by
      cases e with
      | order upd => simp [isMarket] at market
      | book | trade | quote | rollover => rfl
    cases found : l.bot.runners[i]? with
    | none => simp [hasRoom, found, run]
    | some r =>
      rw [room_of_found found]
      by_cases room : r.queue.length < kQueueSize - 1
      · simp only [room, decide_true, ↓reduceIte, run, DryBot.step, market, dry_found found]
        rw [← push_without data room, dry_set]
      · simp only [room, decide_false, Bool.false_eq_true, ↓reduceIte, run]
        rw [refused_push room, dry_unchanged found]

theorem follow_bar (i : ℕ) (bar : Bar) :
    run (DryBot.step libm) (dryOf l) (echo l (.bar i bar)) = dryOf (l.step libm (.bar i bar)) := by
  simp only [Live.step, handedBy, List.append_nil, Bot.step, echo, run, DryBot.step]
  cases found : l.bot.runners[i]? with
  | none => rw [dry_missing found]
  | some r =>
    rw [dry_found found]
    exact dry_set l i { r with strategy := (r.strategy.onBar bar).1 }

theorem follow_watch (i : ℕ) (next : Symbol) :
    run (DryBot.step libm) (dryOf l) (echo l (.watch i next)) = dryOf (l.step libm (.watch i next)) := by
  simp only [Live.step, handedBy, List.append_nil, Bot.step, echo]
  cases found : l.bot.runners[i]? with
  | none => simp [hasRoom, found, run]
  | some r =>
    rw [room_of_found found]
    by_cases room : r.queue.length < kQueueSize - 1
    · simp only [room, decide_true, ↓reduceIte, run, DryBot.step, dry_found found]
      rw [← check_rollover_without next room, dry_set]
    · simp only [room, decide_false, Bool.false_eq_true, ↓reduceIte, run]
      rw [refused_rollover next room, dry_unchanged found]

/-- The dispatch of an event that is no update, by the live runner and by its image. -/
theorem dispatch_without (libm : Libm) {e : MdEvent} {rest : List MdEvent} (risk : RiskCheck)
    (history : Result (List Bar)) (waiting : r.queue = e :: rest) (data : orderOf e = none) :
    ∃ left, (withoutUpdates r).queue = e :: left ∧
      { withoutUpdates r with queue := left }.dispatch libm risk history e =
        (withoutUpdates ({ r with queue := rest }.dispatch libm risk history e).1,
          ({ r with queue := rest }.dispatch libm risk history e).2) := by
  refine ⟨rest.filter (fun e => (orderOf e).isNone), by simp [withoutUpdates, waiting, data], ?_⟩
  rw [dispatch_other_queue rest]
  exact dispatch_other_queue (r := r) _ e risk history

/-- What the order client does with a request does not show in the image. -/
theorem dry_of_performs (i : ℕ) (effects : List Effect) (b : Bot) (handed : List OrderRequest) :
    dryOf ⟨effects.foldl (fun b effect => b.perform i effect) b, handed⟩ = dryOf ⟨b, handed⟩ := by
  simp only [dryOf, performs_runners]

theorem live_drain {e : MdEvent} {rest : List MdEvent} (risk : RiskCheck) (history : Result (List Bar))
    (idle : l.bot.busy i = false) (found : l.bot.runners[i]? = some r) (waiting : r.queue = e :: rest) :
    dryOf (l.step libm (.drain i risk history)) =
      dryOf
        { bot := l.bot.setRunner i ({ r with queue := rest }.dispatch libm risk history e).1
          handed := l.handed ++
            ({ r with queue := rest }.dispatch libm risk history e).2.filterMap requestOf } := by
  simp only [Live.step, handedBy, Bot.step, Bot.drain, idle, found, waiting]
  exact dry_of_performs i _ _ _

theorem follow_data {e : MdEvent} {rest : List MdEvent} (risk : RiskCheck) (history : Result (List Bar))
    (idle : l.bot.busy i = false) (found : l.bot.runners[i]? = some r) (waiting : r.queue = e :: rest)
    (data : orderOf e = none) :
    (dryOf l).drain libm i risk history = dryOf (l.step libm (.drain i risk history)) := by
  obtain ⟨left, queue, same⟩ := dispatch_without libm risk history waiting data
  rw [live_drain risk history idle found waiting]
  simp only [DryBot.drain, dry_found found, queue, same, dry_performs]
  simp [dryOf, DryBot.setRunner, Bot.setRunner]

theorem follow_update {upd : OrderUpdate} {rest : List MdEvent} (risk : RiskCheck)
    (history : Result (List Bar)) (idle : l.bot.busy i = false) (found : l.bot.runners[i]? = some r)
    (waiting : r.queue = .order upd :: rest) (unfilled : upd.status ≠ .filled) :
    dryOf l = dryOf (l.step libm (.drain i risk history)) := by
  rw [live_drain risk history idle found waiting]
  have passed : withoutUpdates ({ r with queue := rest }.dispatch libm risk history (.order upd)).1 =
      withoutUpdates r := by
    simp [StrategyRunner.dispatch, withoutUpdates, unfilled_update unfilled, waiting, orderOf]
  have image := dry_set l i ({ r with queue := rest }.dispatch libm risk history (.order upd)).1
  rw [passed, dry_set, dry_unchanged found] at image
  simpa [StrategyRunner.dispatch] using image

theorem follow_drain (i : ℕ) (risk : RiskCheck) (history : Result (List Bar))
    (unfilled : Unfilled l (.drain i risk history)) :
    run (DryBot.step libm) (dryOf l) (echo l (.drain i risk history)) =
      dryOf (l.step libm (.drain i risk history)) := by
  cases busy : l.bot.busy i with
  | true => simp [Live.step, handedBy, Bot.step, Bot.drain, echo, popped, busy, run]
  | false =>
    cases found : l.bot.runners[i]? with
    | none => simp [Live.step, handedBy, Bot.step, Bot.drain, echo, popped, busy, found, run]
    | some r =>
      cases waiting : r.queue with
      | nil => simp [Live.step, handedBy, Bot.step, Bot.drain, echo, popped, busy, found, waiting, run]
      | cons e rest =>
        have pops : popped l.bot i = some e := by simp [popped, busy, found, waiting]
        simp only [echo, pops]
        cases e with
        | order upd =>
          have status : upd.status ≠ .filled := unfilled upd (by simp [pops, orderOf])
          exact follow_update risk history busy found waiting status
        | book | trade | quote | rollover =>
          exact follow_data risk history busy found waiting rfl

theorem follow (libm : Libm) (l : Live) (m : Move) (unfilled : Unfilled l m) :
    run (DryBot.step libm) (dryOf l) (echo l m) = dryOf (l.step libm m) := by
  cases m with
  | market i e => exact follow_market i e
  | bar i bar => exact follow_bar i bar
  | watch i next => exact follow_watch i next
  | drain i risk history => exact follow_drain i risk history unfilled
  | reply | submitStep | report | streamStep =>
    simp only [echo, run, Live.step, handedBy, List.append_nil, Bot.step, Bot.flowStep, dryOf,
      broadcasts_without]

end Step

section Flat
variable {libm : Libm} {b : DryBot} {r : StrategyRunner}

structure Flat (r : StrategyRunner) : Prop where
  position : r.strategy.position = 0
  queue : ∀ e ∈ r.queue, orderOf e = none

theorem push_flat (flat : Flat r) {e : MdEvent} (data : orderOf e = none) : Flat (r.push e).1 := by
  rcases push_cases r e with ⟨-, eq⟩ | ⟨-, eq⟩
  · rw [eq]
    refine ⟨flat.position, fun event member => ?_⟩
    rcases List.mem_append.mp member with old | new
    · exact flat.queue event old
    · exact List.mem_singleton.mp new ▸ data
  · rw [eq]
    exact flat

theorem step_flat (libm : Libm) (flat : r.strategy.position = 0) (a : FinamRunner.Action) (still : a.fill = 0) :
    (r.step libm a).strategy.position = 0 := by
  rw [(step_frame libm r a).position, still, flat]
  split <;> rfl

theorem dispatch_flat {e : MdEvent} {rest : List MdEvent} (risk : RiskCheck)
    (history : Result (List Bar)) (flat : Flat r) (waiting : r.queue = e :: rest) :
    Flat ({ r with queue := rest }.dispatch libm risk history e).1 := by
  have data : orderOf e = none := flat.queue e (waiting ▸ List.mem_cons_self)
  have still : (FinamRunner.Action.dispatch e risk history).fill = 0 := by
    cases e with
    | order upd => cases data
    | book | trade | quote | rollover => rfl
  refine ⟨step_flat libm (r := { r with queue := rest }) flat.position _ still, ?_⟩
  rw [dispatch_queue]
  exact fun event member => flat.queue event (waiting ▸ List.mem_cons_of_mem e member)

theorem set_flat {i : ℕ} {next : StrategyRunner} (flat : ∀ r ∈ b.runners, Flat r) (stays : Flat next) :
    ∀ r ∈ (b.setRunner i next).runners, Flat r := by
  intro r member
  rcases List.mem_or_eq_of_mem_set member with old | rfl
  · exact flat r old
  · exact stays

theorem dry_step_flat (b : DryBot) (m : Move) (flat : ∀ r ∈ b.runners, Flat r) :
    ∀ r ∈ (b.step libm m).runners, Flat r := by
  cases m with
  | market i e =>
    simp only [DryBot.step]
    split
    · rename_i r market found
      refine set_flat flat (push_flat (flat r (List.mem_of_getElem? found)) ?_)
      cases e with
      | order upd => cases market
      | book | trade | quote | rollover => rfl
    · exact flat
  | bar i bar =>
    simp only [DryBot.step]
    split
    · rename_i r found
      have old := flat r (List.mem_of_getElem? found)
      exact set_flat flat ⟨step_flat libm old.position (.bar bar) rfl, old.queue⟩
    · exact flat
  | watch i next =>
    simp only [DryBot.step, StrategyRunner.checkRollover]
    split
    · rename_i r found
      have old := flat r (List.mem_of_getElem? found)
      split
      · exact set_flat flat old
      · exact set_flat flat (push_flat old rfl)
    · exact flat
  | drain i risk history =>
    simp only [DryBot.step, DryBot.drain]
    split
    · rename_i r found
      split
      · exact flat
      · rename_i e rest waiting
        rw [dry_performs]
        exact set_flat flat (dispatch_flat risk history (flat r (List.mem_of_getElem? found)) waiting)
    · exact flat
  | reply | submitStep | report | streamStep => exact flat

theorem dry_init_flat (accountId : String) (configs : List (RunnerConfig × Result (List Bar))) :
    ∀ r ∈ (DryBot.init libm accountId configs).runners, Flat r := by
  intro r member
  obtain ⟨config, -, rfl⟩ := List.mem_map.mp member
  exact ⟨init_position libm config.1 accountId config.2, by simp [StrategyRunner.init]⟩

end Flat

section Sent
variable {libm : Libm} {accountId : String} {f : OrderFlow} {b : Bot} {handed : List OrderRequest}

/-- The messages that the order client sends for the requests it does not refuse. -/
def messages (accountId : String) (requests : List OrderRequest) : List PlaceOrder :=
  (requests.filter (fun req => decide (validate req = none))).mapIdx
    (fun k req => OrderClient.placeOrder { accountId := accountId } (k + 1) req)

structure Sends (accountId : String) (handed : List OrderRequest) (f : OrderFlow) : Prop where
  account : f.client.accountId = accountId
  counter : f.client.idCounter = f.placed.length + 1
  placed : f.placed = messages accountId handed

theorem step_account (a : Action) : (f.step a).client.accountId = f.client.accountId := by
  have advance : ∀ pc, (f.advance pc).1.client.accountId = f.client.accountId := by
    intro pc
    cases pc <;> rfl
  cases a with
  | submit req =>
    simp only [OrderFlow.step, OrderFlow.submit]
    split <;> rfl
  | reply localId result now =>
    simp only [OrderFlow.step, OrderFlow.reply]
    split <;> rfl
  | submitStep localId =>
    simp only [OrderFlow.step, OrderFlow.submitStep]
    split
    · exact advance _
    · rfl
  | report o now =>
    simp only [OrderFlow.step, OrderFlow.report]
    split <;> rfl
  | streamStep =>
    simp only [OrderFlow.step, OrderFlow.streamStep]
    split
    · exact advance _
    · rfl

theorem flow_sends {a : Action} (sends : Sends accountId handed f) (other : ∀ req, a ≠ .submit req) :
    Sends accountId handed (f.step a) := by
  obtain ⟨placed, counter⟩ := FinamWireOrders.step_placed other
  refine ⟨(step_account a).trans sends.account, ?_, placed.trans sends.placed⟩
  rw [counter, placed]
  exact sends.counter

theorem submit_sends (sends : Sends accountId handed f) (req : OrderRequest) :
    Sends accountId (handed ++ [req]) (f.submit req) := by
  cases valid : validate req with
  | some e =>
    rw [FinamWireOrders.submit_refused valid]
    refine ⟨sends.account, sends.counter, sends.placed.trans ?_⟩
    simp [messages, valid]
  | none =>
    have account : (f.submit req).client.accountId = accountId :=
      (step_account (.submit req)).trans sends.account
    obtain ⟨placed, counter⟩ := FinamWireOrders.submit_accepted (f := f) valid
    refine ⟨account, ?_, ?_⟩
    · rw [placed, counter, sends.counter, List.length_append]
      rfl
    · have message : f.client.placeOrder f.client.idCounter req =
          OrderClient.placeOrder { accountId := accountId } f.client.idCounter req := by
        simp [OrderClient.placeOrder, sends.account]
      rw [placed, message, sends.counter, sends.placed]
      simp [messages, valid]

theorem performs_send (i : ℕ) (effects : List Effect) {b : Bot} {handed : List OrderRequest}
    (sends : Sends accountId handed b.flow) :
    Sends accountId (handed ++ effects.filterMap requestOf)
      (effects.foldl (fun b effect => b.perform i effect) b).flow := by
  induction effects generalizing b handed with
  | nil => simpa using sends
  | cons effect rest ih =>
    cases effect with
    | trip reason => exact ih (b := b) sends
    | submit isClose req =>
      have flow : (b.perform i (.submit isClose req)).flow = b.flow.submit req := by
        simp only [Bot.perform]
        split
        · rename_i refused
          exact (FinamWireOrders.submit_refused refused).symm
        · rfl
      have next := ih (b := b.perform i (.submit isClose req)) (flow ▸ submit_sends sends req)
      simpa [requestOf] using next

theorem live_sends (l : Live) (m : Move) (sends : Sends accountId l.handed l.bot.flow) :
    Sends accountId (l.step libm m).handed (l.step libm m).bot.flow := by
  cases m with
  | market i e =>
    simp only [Live.step, handedBy, List.append_nil, Bot.step]
    split <;> exact sends
  | bar i bar =>
    simp only [Live.step, handedBy, List.append_nil, Bot.step]
    split <;> exact sends
  | watch i next =>
    simp only [Live.step, handedBy, List.append_nil, Bot.step]
    split <;> exact sends
  | drain i risk history =>
    cases busy : l.bot.busy i with
    | true => simpa [Live.step, handedBy, Bot.step, Bot.drain, busy] using sends
    | false =>
      cases found : l.bot.runners[i]? with
      | none => simpa [Live.step, handedBy, Bot.step, Bot.drain, busy, found] using sends
      | some r =>
        cases waiting : r.queue with
        | nil => simpa [Live.step, handedBy, Bot.step, Bot.drain, busy, found, waiting] using sends
        | cons e rest =>
          simp only [Live.step, handedBy, Bot.step, Bot.drain, busy, found, waiting]
          exact performs_send i _ (b := l.bot.setRunner i _) sends
  | reply localId result now =>
    simp only [Live.step, handedBy, List.append_nil]
    exact flow_sends (a := .reply localId result now) sends (by simp)
  | submitStep localId =>
    simp only [Live.step, handedBy, List.append_nil]
    exact flow_sends (a := .submitStep localId) sends (by simp)
  | report o now =>
    simp only [Live.step, handedBy, List.append_nil]
    exact flow_sends (a := .report o now) sends (by simp)
  | streamStep =>
    simp only [Live.step, handedBy, List.append_nil]
    exact flow_sends (a := .streamStep) sends (by simp)

end Sent

section Foretold
variable (libm : Libm) (accountId : String) (configs : List (RunnerConfig × Result (List Bar)))

theorem dry_of_init : dryOf (.init libm accountId configs) = .init libm accountId configs := by
  have same : configs.map (fun c => withoutUpdates (.init libm c.1 accountId c.2)) =
      configs.map (fun c => .init libm c.1 accountId c.2) := by
    refine List.map_congr_left (fun c _ => ?_)
    simp [withoutUpdates, StrategyRunner.init]
  simp [dryOf, Live.init, Bot.init, DryBot.init, Function.comp_def, same]

theorem init_sends : Sends accountId [] (Bot.init libm accountId configs).flow := ⟨rfl, rfl, rfl⟩

end Foretold

/-- With the base quantity of main the same entry is logged and never sent. -/
example :
    let start : List (RunnerConfig × Result (List Bar)) := [({ strategy := makeCfg }, .ok [])]
    let live := run (Live.step flatLibm) (.init flatLibm "ACC001" start) (entryMoves.take 7)
    live.handed = [⟨"ACC001", makeCfg.symbol, .buy, .market, 0, 0⟩] ∧ live.bot.flow.placed = [] := by
  decide +kernel

end FinamDryRun
