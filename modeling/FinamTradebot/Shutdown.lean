import FinamTradebot.StrategyRunner
import FinamTradebot.Subscriptions
import FinamTradebot.TokenManager

/-!
The end of main.cpp. After the signal `main` shuts one component down after the other: it
sets the component's flag and joins its threads. The threads go on meanwhile; every access
to a flag, every push and every pop is a step of its own. The callbacks that push hold a
pointer to their runner, and nothing keeps a late one from a runner that is destroyed: a
run in which that happens has no further state.
-/
namespace FinamShutdown
open FinamInterfaces FinamOrderClient FinamBackoff
open FinamRunner (MdEvent kQueueSize)
open FinamAuth (Auth TokenManager RenewalPc Owned secureZero)
open FinamSubscriptions (runOrderStream)
open StreamLoop (Loop Input)

section Threads

/-- `poll_loop` and `start_rollover_watchdog`: before the test of the loop, in its sleep,
    before the test behind the sleep, in `refresh_account` or `check_rollover`, and over. -/
inductive PacedPc where
  | testing | asleep | retesting | working | ended
  deriving DecidableEq

def PacedPc.next (stop : Bool) : PacedPc → PacedPc
  | .testing => if stop then .ended else .asleep
  | .asleep => .retesting
  | .retesting => if stop then .ended else .working
  | .working => .testing
  | .ended => .ended

/-- `serve_loop`: before the socket listens, before the test of the loop, in `select`, in
    `handle_request`, and over. -/
inductive ServePc where
  | opening | testing | selecting | serving | ended
  deriving DecidableEq

/-- `ready` is the success of the calls that open the socket, and of `select` and `accept`. -/
def ServePc.next (stop ready : Bool) : ServePc → ServePc
  | .opening => if ready then .testing else .ended
  | .testing => if stop then .ended else .selecting
  | .selecting => if ready then .serving else .testing
  | .serving => .testing
  | .ended => .ended

/-- `start_strategy_thread`: before the test of the loop, in `drain_queue`, which runs once
    more behind the loop, in `dispatch`, in the sleep, and over. -/
inductive DrainPc where
  | testing
  | draining (last : Bool)
  | dispatching (last : Bool) (e : MdEvent)
  | asleep
  | ended
  deriving DecidableEq

/-- The threads of a `StrategyRunner`. The events accepted, those dispatched, and those that
    had been accepted when the flag was set are logged for the statements. -/
structure Runner where
  stop : Bool := false
  queue : List MdEvent := []
  strategy : DrainPc := .testing
  watchdog : PacedPc := .testing
  destroyed : Bool := false
  accepted : List MdEvent := []
  dispatched : List MdEvent := []
  pending : List MdEvent := []

def Runner.push (r : Runner) (e : MdEvent) : Runner :=
  if r.queue.length < kQueueSize - 1 then
    { r with queue := r.queue ++ [e], accepted := r.accepted ++ [e] }
  else r

def Runner.strategyStep (r : Runner) : Runner :=
  match r.strategy with
  | .testing => { r with strategy := .draining r.stop }
  | .draining last =>
    match r.queue with
    | [] => { r with strategy := if last then .ended else .asleep }
    | e :: rest => { r with queue := rest, strategy := .dispatching last e }
  | .dispatching last e => { r with dispatched := r.dispatched ++ [e], strategy := .draining last }
  | .asleep => { r with strategy := .testing }
  | .ended => r

/-- `found` is the contract of a rollover that `check_rollover` detects. -/
def Runner.watchdogStep (r : Runner) (found : Option Symbol) : Runner :=
  match r.watchdog, found with
  | .working, some newSymbol => { r.push (.rollover newSymbol) with watchdog := .testing }
  | pc, _ => { r with watchdog := pc.next r.stop }

def Runner.raise (r : Runner) : Runner :=
  { r with stop := true, pending := if r.stop then r.pending else r.accepted }

end Threads

section Main

inductive Instr where
  | await
  | stopHealth | joinHealth
  | stopRunner (i : ℕ) | joinWatchdog (i : ℕ) | joinStrategy (i : ℕ) | destroy (i : ℕ)
  | stopOrders | joinOrders
  | stopRisk | joinRisk
  | stopToken | joinToken
  deriving DecidableEq

/-- `~StrategyRunner`, and at its end the members: the subscriptions, the queue and the rest. -/
def destructor (i : ℕ) : List Instr := [.stopRunner i, .joinWatchdog i, .joinStrategy i, .destroy i]

/-- `main` from its wait for the signal, with so many runners. -/
def mainProgram (runners : ℕ) : List Instr :=
  [.await, .stopHealth, .joinHealth] ++ (List.range runners).flatMap destructor ++
    [.stopOrders, .joinOrders, .stopRisk, .joinRisk, .stopToken, .joinToken]

abbrev OrderLoop := Loop (List (OrderReport × ℤ)) Unit (OrderReport × ℤ) ℤ

/-- `main` is what is left of the program; a dry run has no order client. -/
structure Bot where
  main : List Instr
  signal : Bool := false
  healthStop : Bool := false
  health : ServePc := .opening
  runners : ℕ → Runner := fun _ => {}
  orders : Option OrderLoop
  pollStop : Bool := false
  poll : PacedPc := .testing
  auth : Auth

def Bot.start (runners : ℕ) (dryRun : Bool) (m : TokenManager) : Bot :=
  { main := mainProgram runners
    orders := if dryRun then none else some runOrderStream.init
    auth := { manager := m } }

def Bot.setRunner (s : Bot) (i : ℕ) (r : Runner) : Bot :=
  { s with runners := Function.update s.runners i r }

/-- What an instruction does besides waiting. -/
def Bot.execute (s : Bot) : Instr → Bot
  | .stopHealth => { s with healthStop := true }
  | .stopRunner i => s.setRunner i (s.runners i).raise
  | .destroy i => s.setRunner i { s.runners i with destroyed := true }
  | .stopOrders => { s with orders := s.orders.map fun o => runOrderStream.step o .cancel }
  | .stopRisk => { s with pollStop := true }
  | .stopToken => { s with auth := s.auth.step .shutdown }
  | .await | .joinHealth | .joinWatchdog _ | .joinStrategy _ | .joinOrders | .joinRisk | .joinToken => s

/-- What an instruction waits for. -/
def Bot.passes (s : Bot) : Instr → Bool
  | .await => s.signal
  | .joinHealth => decide (s.health = .ended)
  | .joinWatchdog i => decide ((s.runners i).watchdog = .ended)
  | .joinStrategy i => decide ((s.runners i).strategy = .ended)
  | .joinOrders => s.orders.all fun o => decide (o.pc = .done)
  | .joinRisk => decide (s.poll = .ended)
  | .joinToken => decide (s.auth.manager.renewal = some .ended)
  | .stopHealth | .stopRunner _ | .destroy _ | .stopOrders | .stopRisk | .stopToken => true

def Bot.mainStep (s : Bot) : Bot :=
  match s.main with
  | [] => s
  | k :: rest => if s.passes k then { s.execute k with main := rest } else s

/-- An offer is a callback's push: of a subscription's thread or of the order client. -/
inductive Turn where
  | signal
  | main
  | health (ready : Bool)
  | strategy (i : ℕ)
  | watchdog (i : ℕ) (found : Option Symbol)
  | offer (i : ℕ) (e : MdEvent)
  | orders (input : Input (List (OrderReport × ℤ)) ℤ Draw)
  | poll
  | renewal (token : Option String)
  | request

def Bot.step (s : Bot) : Turn → Option Bot
  | .signal => some { s with signal := true }
  | .main => some s.mainStep
  | .health ready => some { s with health := s.health.next s.healthStop ready }
  | .strategy i => some (s.setRunner i (s.runners i).strategyStep)
  | .watchdog i found => some (s.setRunner i ((s.runners i).watchdogStep found))
  | .offer i e =>
    if (s.runners i).destroyed then none else some (s.setRunner i ((s.runners i).push e))
  | .orders input => some { s with orders := s.orders.map fun o => runOrderStream.step o (.thread input) }
  | .poll => some { s with poll := s.poll.next s.pollStop }
  | .renewal token => some { s with auth := s.auth.step (.renewal token) }
  | .request => some { s with auth := s.auth.step .request }

def Bot.play (s : Bot) (turns : List Turn) : Option Bot := turns.foldlM Bot.step s

end Main

section Events

/-- The event the strategy thread has popped and not yet dispatched. -/
def DrainPc.inHand : DrainPc → List MdEvent
  | .dispatching _ e => [e]
  | .testing | .draining _ | .asleep | .ended => []

/-- In the last `drain_queue` or past it. -/
def DrainPc.isLast : DrainPc → Bool
  | .draining last | .dispatching last _ => last
  | .ended => true
  | .testing | .asleep => false

/-- No event is lost, repeated or overtaken between the queue and `dispatch`, and the
    strategy thread ends with nothing left of what was accepted before the flag. -/
structure Runner.Sound (r : Runner) : Prop where
  logged : r.accepted = r.dispatched ++ r.strategy.inHand ++ r.queue
  stopped : r.strategy.isLast = true → r.stop = true
  pending : r.stop = true → r.pending <+: r.accepted
  drained : r.strategy = .ended → r.pending <+: r.dispatched

/-- What stays of a runner over every step. -/
structure Runner.Later (r next : Runner) : Prop where
  stop : r.stop = true → next.stop = true
  watchdog : r.watchdog = .ended → next.watchdog = .ended
  strategy : r.strategy = .ended → next.strategy = .ended
  destroyed : r.destroyed = true → next.destroyed = true
  sound : r.Sound → next.Sound

variable (r : Runner)

theorem later_refl : r.Later r := ⟨id, id, id, id, id⟩

theorem push_later (e : MdEvent) : r.Later (r.push e) := by
  unfold Runner.push
  split_ifs
  · refine ⟨id, id, id, id, ?_⟩
    intro sound
    refine ⟨?_, sound.stopped, ?_, sound.drained⟩
    · simp [sound.logged]
    · intro stop
      exact (sound.pending stop).trans (List.prefix_append _ _)
  · exact later_refl r

theorem raise_later : r.Later r.raise := by
  refine ⟨fun _ => rfl, id, id, id, ?_⟩
  intro sound
  refine ⟨sound.logged, fun _ => rfl, ?_, ?_⟩
  · intro _
    cases stop : r.stop with
    | true => simpa [Runner.raise, stop] using sound.pending stop
    | false => simp [Runner.raise, stop]
  · intro ended
    have stop : r.stop = true := sound.stopped (by rw [show r.strategy = .ended from ended]; rfl)
    simpa [Runner.raise, stop] using sound.drained ended

/-- A step of a strategy thread that is not over. -/
theorem running_later {next : Runner} (running : r.strategy ≠ .ended) (stop : next.stop = r.stop)
    (watchdog : next.watchdog = r.watchdog) (destroyed : next.destroyed = r.destroyed)
    (sound : r.Sound → next.Sound) : r.Later next := by
  refine ⟨?_, ?_, fun ended => absurd ended running, ?_, sound⟩
  · intro set
    exact stop.trans set
  · intro ended
    exact watchdog.trans ended
  · intro gone
    exact destroyed.trans gone

theorem drained_later (last : Bool) (here : r.strategy = .draining last) (empty : r.queue = []) :
    r.Later { r with strategy := if last then .ended else .asleep } := by
  refine running_later r (by simp [here]) rfl rfl rfl ?_
  intro sound
  have logged : r.accepted = r.dispatched := by
    simpa [here, empty, DrainPc.inHand] using sound.logged
  cases last with
  | false =>
    refine ⟨?_, (fun set => by cases set), sound.pending, fun ended => by cases ended⟩
    simpa [empty, DrainPc.inHand] using logged
  | true =>
    have stop : r.stop = true := sound.stopped (by rw [here]; rfl)
    refine ⟨?_, fun _ => stop, sound.pending, ?_⟩
    · simpa [empty, DrainPc.inHand] using logged
    · intro _
      exact logged ▸ sound.pending stop

theorem strategy_later : r.Later r.strategyStep := by
  unfold Runner.strategyStep
  split
  all_goals rename_i here
  · refine running_later r (by simp [here]) rfl rfl rfl ?_
    intro sound
    refine ⟨?_, id, sound.pending, fun ended => by cases ended⟩
    simpa [here, DrainPc.inHand] using sound.logged
  · split
    · rename_i empty
      exact drained_later r _ here empty
    · rename_i e rest queued
      refine running_later r (by simp [here]) rfl rfl rfl ?_
      intro sound
      refine ⟨?_, fun last => sound.stopped (by rw [here]; exact last), sound.pending,
        fun ended => by cases ended⟩
      simpa [here, queued, DrainPc.inHand] using sound.logged
  · refine running_later r (by simp [here]) rfl rfl rfl ?_
    intro sound
    refine ⟨?_, fun last => sound.stopped (by rw [here]; exact last), sound.pending,
      fun ended => by cases ended⟩
    simpa [here, DrainPc.inHand] using sound.logged
  · refine running_later r (by simp [here]) rfl rfl rfl ?_
    intro sound
    refine ⟨?_, (fun last => by cases last), sound.pending, fun ended => by cases ended⟩
    simpa [here, DrainPc.inHand] using sound.logged
  · exact later_refl r

theorem paced_ended (stop : Bool) {pc : PacedPc} (ended : pc = .ended) : pc.next stop = .ended := by
  rw [ended]
  rfl

theorem watchdog_later (found : Option Symbol) : r.Later (r.watchdogStep found) := by
  unfold Runner.watchdogStep
  split
  · rename_i newSymbol working
    have pushed := push_later r (.rollover newSymbol)
    refine ⟨pushed.stop, ?_, pushed.strategy, pushed.destroyed, ?_⟩
    · intro ended
      rw [working] at ended
      cases ended
    · intro sound
      obtain ⟨logged, stopped, pending, drained⟩ := pushed.sound sound
      exact ⟨logged, stopped, pending, drained⟩
  · refine ⟨id, paced_ended r.stop, id, id, ?_⟩
    intro sound
    exact ⟨sound.logged, sound.stopped, sound.pending, sound.drained⟩

end Events

section Instructions

/-- What an instruction leaves behind for good. -/
def Done (s : Bot) : Instr → Prop
  | .await => s.signal = true
  | .stopHealth => s.healthStop = true
  | .joinHealth => s.health = .ended
  | .stopRunner i => (s.runners i).stop = true
  | .joinWatchdog i => (s.runners i).watchdog = .ended
  | .joinStrategy i => (s.runners i).strategy = .ended
  | .destroy i => (s.runners i).destroyed = true
  | .stopOrders => ∀ o ∈ s.orders, o.stop = true
  | .joinOrders => ∀ o ∈ s.orders, o.pc = .done
  | .stopRisk => s.pollStop = true
  | .joinRisk => s.poll = .ended
  | .stopToken => s.auth.manager.stop = true
  | .joinToken => s.auth.manager.renewal = some .ended

/-- What stays of the bot over every step of every thread, with the secret of the renewal
    thread. -/
structure Later (secret : String) (s next : Bot) : Prop where
  signal : s.signal = true → next.signal = true
  healthStop : s.healthStop = true → next.healthStop = true
  health : s.health = .ended → next.health = .ended
  runners : ∀ i, (s.runners i).Later (next.runners i)
  ordersStop : (∀ o ∈ s.orders, o.stop = true) → ∀ o ∈ next.orders, o.stop = true
  orders : (∀ o ∈ s.orders, o.pc = .done) → ∀ o ∈ next.orders, o.pc = .done
  pollStop : s.pollStop = true → next.pollStop = true
  poll : s.poll = .ended → next.poll = .ended
  authStop : s.auth.manager.stop = true → next.auth.manager.stop = true
  renewal : s.auth.manager.renewal = some .ended → next.auth.manager.renewal = some .ended
  owned : (∃ pc, Owned secret pc s.auth.manager) → ∃ pc, Owned secret pc next.auth.manager

variable {secret : String}

theorem done_later {s next : Bot} (later : Later secret s next) {k : Instr} (done : Done s k) :
    Done next k := by
  cases k with
  | await => exact later.signal done
  | stopHealth => exact later.healthStop done
  | joinHealth => exact later.health done
  | stopRunner i => exact (later.runners i).stop done
  | joinWatchdog i => exact (later.runners i).watchdog done
  | joinStrategy i => exact (later.runners i).strategy done
  | destroy i => exact (later.runners i).destroyed done
  | stopOrders => exact later.ordersStop done
  | joinOrders => exact later.orders done
  | stopRisk => exact later.pollStop done
  | joinRisk => exact later.poll done
  | stopToken => exact later.authStop done
  | joinToken => exact later.renewal done

theorem bot_refl (secret : String) (s : Bot) : Later secret s s :=
  ⟨id, id, id, fun i => later_refl (s.runners i), id, id, id, id, id, id, id⟩

variable (s : Bot)

theorem set_runner_later (i : ℕ) {r : Runner} (later : (s.runners i).Later r) :
    Later secret s (s.setRunner i r) := by
  refine { bot_refl secret s with runners := ?_ }
  intro j
  by_cases same : j = i
  · subst same
    simpa [Bot.setRunner] using later
  · simpa [Bot.setRunner, same] using later_refl (s.runners j)

theorem orders_later (act : StreamLoop.Action (List (OrderReport × ℤ)) ℤ Draw) :
    Later secret s { s with orders := s.orders.map fun o => runOrderStream.step o act } := by
  refine { bot_refl secret s with ordersStop := ?_, orders := ?_ }
  · intro stop o member
    obtain ⟨before, found, rfl⟩ := Option.map_eq_some_iff.mp member
    cases act with
    | cancel => rfl
    | thread input =>
      obtain ⟨events, taken⟩ := StreamLoop.thread_taken runOrderStream before input
      exact taken.stop.trans (stop before found)
  · intro all o member
    obtain ⟨before, found, rfl⟩ := Option.map_eq_some_iff.mp member
    have ended := all before found
    cases act with
    | cancel => exact ended
    | thread input => simp [StreamLoop.Program.step, StreamLoop.Program.thread, ended]

theorem auth_later (act : FinamAuth.Action) : Later secret s { s with auth := s.auth.step act } := by
  refine { bot_refl secret s with authStop := ?_, renewal := ?_, owned := fun owned => FinamAuth.owned_step owned act }
  · intro stop
    cases act with
    | renewal token =>
      cases renewal : s.auth.manager.renewal with
      | none =>
        have same : s.auth.step (.renewal token) = s.auth := FinamAuth.renew_without_thread renewal token
        rw [same]
        exact stop
      | some pc =>
        obtain ⟨last, events, renewed⟩ := FinamAuth.renew_eq renewal token
        exact renewed.stop.trans stop
    | request => exact stop
    | shutdown => rfl
  · intro ended
    cases act with
    | renewal token =>
      have same : s.auth.step (.renewal token) = s.auth := by
        simp only [Auth.step, Auth.renew, ended]
      rw [same]
      exact ended
    | request => exact ended
    | shutdown => exact ended

theorem execute_later (k : Instr) : Later secret s (s.execute k) := by
  cases k with
  | stopHealth => exact { bot_refl secret s with healthStop := fun _ => rfl }
  | stopRunner i => exact set_runner_later s i (raise_later (s.runners i))
  | destroy i =>
    refine set_runner_later s i ⟨id, id, id, fun _ => rfl, ?_⟩
    intro sound
    exact ⟨sound.logged, sound.stopped, sound.pending, sound.drained⟩
  | stopOrders => exact orders_later s .cancel
  | stopRisk => exact { bot_refl secret s with pollStop := fun _ => rfl }
  | stopToken => exact auth_later s .shutdown
  | await | joinHealth | joinWatchdog | joinStrategy | joinOrders | joinRisk | joinToken =>
    exact bot_refl secret s

theorem main_later (rest : List Instr) {next : Bot} (later : Later secret s next) :
    Later secret s { next with main := rest } :=
  { later with }

theorem main_step_later : Later secret s s.mainStep := by
  unfold Bot.mainStep
  split
  · exact bot_refl secret s
  · rename_i k rest here
    split_ifs
    · exact main_later s rest (execute_later s k)
    · exact bot_refl secret s

theorem step_later {next : Bot} {a : Turn} (taken : s.step a = some next) : Later secret s next := by
  cases a with
  | signal =>
    cases taken
    exact { bot_refl secret s with signal := fun _ => rfl }
  | main =>
    cases taken
    exact main_step_later s
  | health ready =>
    cases taken
    refine { bot_refl secret s with health := ?_ }
    intro ended
    rw [ended]
    rfl
  | strategy i =>
    cases taken
    exact set_runner_later s i (strategy_later (s.runners i))
  | watchdog i found =>
    cases taken
    exact set_runner_later s i (watchdog_later (s.runners i) found)
  | offer i e =>
    simp only [Bot.step] at taken
    split_ifs at taken
    cases taken
    exact set_runner_later s i (push_later (s.runners i) e)
  | orders input =>
    cases taken
    exact orders_later s (.thread input)
  | poll =>
    cases taken
    exact { bot_refl secret s with poll := paced_ended s.pollStop }
  | renewal token =>
    cases taken
    exact auth_later s (.renewal token)
  | request =>
    cases taken
    exact auth_later s .request

theorem executed_done {k : Instr} (passes : s.passes k = true) : Done (s.execute k) k := by
  cases k with
  | await => exact passes
  | stopHealth => rfl
  | joinHealth => simpa [Done, Bot.execute, Bot.passes] using passes
  | stopRunner i => simp [Done, Bot.execute, Bot.setRunner, Runner.raise]
  | joinWatchdog i => simpa [Done, Bot.execute, Bot.passes] using passes
  | joinStrategy i => simpa [Done, Bot.execute, Bot.passes] using passes
  | destroy i => simp [Done, Bot.execute, Bot.setRunner]
  | stopOrders =>
    intro o member
    obtain ⟨before, -, rfl⟩ := Option.map_eq_some_iff.mp member
    rfl
  | joinOrders =>
    intro o member
    have all : s.orders.all (fun o => decide (o.pc = .done)) = true := passes
    rw [show s.orders = some o from member] at all
    exact of_decide_eq_true all
  | stopRisk => rfl
  | joinRisk => simpa [Done, Bot.execute, Bot.passes] using passes
  | stopToken => rfl
  | joinToken => simpa [Done, Bot.execute, Bot.passes] using passes

end Instructions

section Reached
variable {secret : String} {runners : ℕ} {s next : Bot} {seen : List Instr}

/-- The flag that a thread must find set before it ends. -/
def Instr.needs : Instr → Option Instr
  | .joinHealth => some .stopHealth
  | .joinWatchdog i | .joinStrategy i => some (.stopRunner i)
  | .joinOrders => some .stopOrders
  | .joinRisk => some .stopRisk
  | .joinToken => some .stopToken
  | .await | .stopHealth | .stopRunner _ | .destroy _ | .stopOrders | .stopRisk | .stopToken => none

/-- Behind the instructions seen, no thread is joined before its flag is set. -/
def Guarded : List Instr → List Instr → Prop
  | _, [] => True
  | seen, k :: rest => (∀ j ∈ k.needs, j ∈ seen) ∧ Guarded (seen ++ [k]) rest

theorem guarded_append (seen first later : List Instr) :
    Guarded seen (first ++ later) ↔ Guarded seen first ∧ Guarded (seen ++ first) later := by
  induction first generalizing seen with
  | nil => simp [Guarded]
  | cons k rest ih =>
    rw [List.cons_append, Guarded, Guarded, ih, and_assoc, List.append_assoc]
    rfl

theorem guarded_destructors (seen : List Instr) (indices : List ℕ) :
    Guarded seen (indices.flatMap destructor) := by
  induction indices generalizing seen with
  | nil => trivial
  | cons i rest ih =>
    rw [List.flatMap_cons, guarded_append]
    exact ⟨by simp [destructor, Guarded, Instr.needs], ih _⟩

theorem program_guarded (runners : ℕ) : Guarded [] (mainProgram runners) := by
  rw [mainProgram, guarded_append, guarded_append]
  refine ⟨⟨by simp [Guarded, Instr.needs], guarded_destructors _ _⟩, ?_⟩
  simp [Guarded, Instr.needs]

/-- `main` has executed the instructions seen, and their effects are still there. -/
structure Reached (secret : String) (runners : ℕ) (s : Bot) (seen : List Instr) : Prop where
  program : seen ++ s.main = mainProgram runners
  done : ∀ k ∈ seen, Done s k
  guarded : Guarded seen s.main
  sound : ∀ i, (s.runners i).Sound
  owned : ∃ pc, Owned secret pc s.auth.manager

theorem step_main {a : Turn} (taken : s.step a = some next) (other : a ≠ .main) : next.main = s.main := by
  cases a with
  | main => exact absurd rfl other
  | offer i e =>
    simp only [Bot.step] at taken
    split_ifs at taken
    cases taken
    rfl
  | _ =>
    cases taken
    rfl

theorem reached_later (reached : Reached secret runners s seen) (later : Later secret s next)
    (same : next.main = s.main) : Reached secret runners next seen :=
  { program := same ▸ reached.program
    done := fun k member => done_later later (reached.done k member)
    guarded := same ▸ reached.guarded
    sound := fun i => (later.runners i).sound (reached.sound i)
    owned := later.owned reached.owned }

/-- `main` executes its next instruction. -/
theorem reached_executed (reached : Reached secret runners s seen) {k : Instr} {rest : List Instr}
    (ahead : s.main = k :: rest) (passes : s.passes k = true) :
    Reached secret runners { s.execute k with main := rest } (seen ++ [k]) := by
  have later : Later secret s { s.execute k with main := rest } := main_later s rest (execute_later s k)
  have guarded := reached.guarded
  rw [ahead] at guarded
  refine ⟨?_, ?_, guarded.2, fun i => (later.runners i).sound (reached.sound i), later.owned reached.owned⟩
  · rw [← reached.program, ahead, List.append_assoc]
    rfl
  · intro j member
    rcases List.mem_append.mp member with before | last
    · exact done_later later (reached.done j before)
    · obtain rfl := List.mem_singleton.mp last
      exact done_later (main_later _ rest (bot_refl secret _)) (executed_done s passes)

theorem reached_step {a : Turn} (reached : Reached secret runners s seen) (taken : s.step a = some next) :
    ∃ seen, Reached secret runners next seen := by
  by_cases main : a = .main
  · subst main
    cases taken
    unfold Bot.mainStep
    split
    · exact ⟨seen, reached⟩
    · rename_i k rest ahead
      split_ifs with passes
      · exact ⟨_, reached_executed reached ahead passes⟩
      · exact ⟨seen, reached⟩
  · exact ⟨seen, reached_later reached (step_later s taken) (step_main taken main)⟩

theorem reached_play (turns : List Turn) (reached : Reached secret runners s seen)
    (played : s.play turns = some next) : ∃ seen, Reached secret runners next seen := by
  induction turns generalizing s seen with
  | nil =>
    cases played
    exact ⟨seen, reached⟩
  | cons a rest ih =>
    rw [Bot.play, List.foldlM_cons] at played
    obtain ⟨middle, taken, later⟩ := Option.bind_eq_some_iff.mp played
    obtain ⟨more, reached⟩ := reached_step reached taken
    exact ih reached later

theorem reached_start {auth : Except String String} {details : Except String (List String)}
    {m : TokenManager} (started : TokenManager.init {} secret auth details = (m, .ok ())) (dryRun : Bool) :
    Reached secret runners (Bot.start runners dryRun m) [] := by
  obtain ⟨token, ids, rfl, -, rfl⟩ := FinamAuth.init_started started
  refine ⟨rfl, ?_, program_guarded runners, ?_, ⟨.testing, rfl, rfl⟩⟩
  · intro k member
    cases member
  · intro i
    refine ⟨rfl, ?_, ?_, ?_⟩
    · intro last
      cases last
    · intro stop
      cases stop
    · intro ended
      cases ended

end Reached

section Over
variable {secret : String} {runners : ℕ} {s : Bot} {seen : List Instr}
variable {auth : Except String String} {details : Except String (List String)} {m : TokenManager}

theorem seen_of_passed {before after : List Instr} {k : Instr} (reached : Reached secret runners s seen)
    (program : mainProgram runners = before ++ k :: after) (passed : k ∉ s.main) :
    ∀ j ∈ before, Done s j := by
  have split := reached.program.trans program
  intro j member
  rcases List.append_eq_append_iff.mp split with ⟨more, -, left⟩ | ⟨more, eq, -⟩
  · refine absurd ?_ passed
    rw [left]
    exact List.mem_append_right _ List.mem_cons_self
  · apply reached.done
    rw [eq]
    exact List.mem_append_left _ member

theorem mem_program {i : ℕ} (inside : i < runners) {k : Instr} (member : k ∈ destructor i) :
    k ∈ (List.range runners).flatMap destructor :=
  List.mem_flatMap.mpr ⟨i, List.mem_range.mpr inside, member⟩

/-- Nothing is left of the bot: every thread that `main` joins is over, every event that a
    runner had accepted before its flag was set is dispatched, in order and once, and the
    secret is zeroed. -/
structure Over (secret : String) (runners : ℕ) (s : Bot) : Prop where
  health : s.health = .ended
  threads : ∀ i < runners, (s.runners i).watchdog = .ended ∧ (s.runners i).strategy = .ended
  events : ∀ i < runners, (s.runners i).pending <+: (s.runners i).dispatched ∧
    (s.runners i).accepted = (s.runners i).dispatched ++ (s.runners i).queue
  orders : ∀ o ∈ s.orders, o.pc = .done
  poll : s.poll = .ended
  renewal : s.auth.manager.renewal = some .ended
  secret : s.auth.manager.secret = secureZero secret

theorem over_of_done (reached : Reached secret runners s seen)
    (done : ∀ k ∈ mainProgram runners, Done s k) : Over secret runners s := by
  have parts : ∀ i < runners, ∀ k ∈ destructor i, Done s k := by
    intro i inside k member
    apply done
    exact List.mem_append_left _ (List.mem_append_right _ (mem_program inside member))
  have threads : ∀ i < runners, (s.runners i).watchdog = .ended ∧ (s.runners i).strategy = .ended := by
    intro i inside
    exact ⟨parts i inside (.joinWatchdog i) (by simp [destructor]),
      parts i inside (.joinStrategy i) (by simp [destructor])⟩
  have renewal : s.auth.manager.renewal = some .ended := done .joinToken (by simp [mainProgram])
  refine ⟨done .joinHealth (by simp [mainProgram]), threads, ?_, done .joinOrders (by simp [mainProgram]),
    done .joinRisk (by simp [mainProgram]), renewal, ?_⟩
  · intro i inside
    have ended := (threads i inside).2
    have sound := reached.sound i
    refine ⟨sound.drained ended, ?_⟩
    simpa [ended, DrainPc.inHand] using sound.logged
  · obtain ⟨pc, owned⟩ := reached.owned
    obtain rfl : pc = .ended := Option.some.inj (owned.renewal.symm.trans renewal)
    exact owned.secret

def lastTrade : MdEvent := .trade ⟨100, 1, true, 0⟩

/-- The manager of tests/integration/test_auth_flow.cpp after `init`. -/
def testManager : TokenManager := (TokenManager.init {} "valid_secret" (.ok "test_jwt") (.ok ["ACC001"])).1

theorem test_manager_started : TokenManager.init {} "valid_secret" (.ok "test_jwt") (.ok ["ACC001"]) =
    (testManager, .ok ()) := rfl

/-- A trade waits in the queue of the only runner when the signal comes; the threads end one
    by one and `main` destroys the runner. -/
def untilDestroyed : List Turn :=
  [.offer 0 lastTrade, .signal, .main, .main, .health false, .main, .main, .watchdog 0 none, .main,
    .strategy 0, .strategy 0, .strategy 0, .strategy 0, .main, .main]

/-- The order client, the risk manager and the token manager after it. -/
def untilReturned : List Turn :=
  untilDestroyed ++ [.main, .orders ⟨none, 0, .of 400⟩, .main, .main, .poll, .main, .main, .renewal none,
    .renewal none, .main]

/-- A callback of a subscription, whose thread is detached, after its runner is gone. -/
example : (Bot.start 1 false testManager).play (untilDestroyed ++ [.offer 0 lastTrade]) = none := rfl

end Over

section Progress
variable {secret : String} {runners : ℕ} {s : Bot} {seen : List Instr}

/-- A step of `main` or of a thread that gets nothing more from outside. -/
def Turn.isQuiet : Turn → Bool
  | .main | .health _ | .strategy _ | .poll => true
  | .watchdog _ found => found.isNone
  | .orders input => input.message.isNone
  | .renewal token => token.isNone
  | .signal | .offer _ _ | .request => false

/-- Steps of one component, with the rest of the bot as it is. -/
theorem play_component {C A : Type} (get : Bot → C) (set : Bot → C → Bot) (step : C → A → C)
    (turn : A → Turn) (setGet : ∀ s, set s (get s) = s) (getSet : ∀ s c, get (set s c) = c)
    (setSet : ∀ s c d, set (set s c) d = set s d)
    (steps : ∀ s a, s.step (turn a) = some (set s (step (get s) a))) (s : Bot) (acts : List A) :
    s.play (acts.map turn) = some (set s (Runs.run step (get s) acts)) := by
  induction acts generalizing s with
  | nil => exact congrArg some (setGet s).symm
  | cons a rest ih =>
    have later := ih (set s (step (get s) a))
    rw [getSet, setSet] at later
    rw [List.map_cons, Bot.play, List.foldlM_cons, steps]
    exact later

theorem play_append {first later : List Turn} {middle next : Bot} (played : s.play first = some middle)
    (more : middle.play later = some next) : s.play (first ++ later) = some next := by
  rw [Bot.play, List.foldlM_append]
  exact Option.bind_eq_some_iff.mpr ⟨middle, played, more⟩

/-- Steps of a stopped strategy thread until its end. -/
def DrainPc.rank : DrainPc → ℕ
  | .dispatching false _ => 5
  | .draining false => 4
  | .asleep => 3
  | .testing | .dispatching true _ => 2
  | .draining true => 1
  | .ended => 0

def Runner.rank (r : Runner) : ℕ := 2 * r.queue.length + r.strategy.rank

theorem strategy_rank {r : Runner} (stop : r.stop = true) :
    r.strategyStep.strategy = .ended ∨ r.strategyStep.rank + 1 ≤ r.rank := by
  unfold Runner.strategyStep
  split
  all_goals rename_i here
  · right
    simp [Runner.rank, here, stop, DrainPc.rank]
  · rename_i last
    split
    · rename_i empty
      cases last with
      | true => exact Or.inl rfl
      | false =>
        right
        simp [Runner.rank, here, empty, DrainPc.rank]
    · rename_i e rest queued
      right
      cases last <;> simp [Runner.rank, here, queued, DrainPc.rank] <;> omega
  · rename_i last e
    right
    cases last <;> simp [Runner.rank, here, DrainPc.rank]
  · right
    simp [Runner.rank, here, DrainPc.rank]
  · exact Or.inl here

theorem ended_of_rank {pc : DrainPc} (zero : pc.rank = 0) : pc = .ended := by
  cases pc with
  | ended => rfl
  | draining last => cases last <;> cases zero
  | dispatching last e => cases last <;> cases zero
  | testing => cases zero
  | asleep => cases zero

def drainStep (r : Runner) (_ : Unit) : Runner := r.strategyStep

theorem strategy_ends (n : ℕ) {r : Runner} (stop : r.stop = true)
    (few : r.strategy = .ended ∨ r.rank ≤ n) :
    (Runs.run drainStep r (List.replicate n ())).strategy = .ended := by
  induction n generalizing r with
  | zero =>
    rcases few with ended | none
    · exact ended
    · have zero : r.strategy.rank = 0 := by
        unfold Runner.rank at none
        omega
      exact ended_of_rank zero
  | succ n ih =>
    refine ih ((strategy_later r).stop stop) ?_
    rcases few with ended | few
    · exact Or.inl ((strategy_later r).strategy ended)
    · rcases strategy_rank stop with ended | less
      · exact Or.inl ended
      · exact Or.inr (Nat.le_of_succ_le_succ (less.trans few))

/-- The threads can bring `main` past the instruction before it. -/
def Opens (s : Bot) (k : Instr) : Prop :=
  ∃ turns next, (∀ a ∈ turns, Turn.isQuiet a = true) ∧ s.play turns = some next ∧
    next.main = s.main ∧ next.signal = s.signal ∧ next.passes k = true

theorem opens_at_once {k : Instr} (passes : s.passes k = true) : Opens s k :=
  ⟨[], s, by simp, rfl, rfl, rfl, passes⟩

theorem health_opens (stop : s.healthStop = true) : Opens s .joinHealth := by
  have played := play_component (fun s => (s.healthStop, s.health))
    (fun s c => { s with healthStop := c.1, health := c.2 })
    (fun c ready => (c.1, c.2.next c.1 ready)) Turn.health
    (fun _ => rfl) (fun _ _ => rfl) (fun _ _ _ => rfl) (fun _ _ => rfl) s [false, false]
  refine ⟨_, _, by simp [Turn.isQuiet], played, rfl, rfl, ?_⟩
  cases s.health <;> simp [Runs.run, Bot.passes, ServePc.next, stop]

theorem poll_opens (stop : s.pollStop = true) : Opens s .joinRisk := by
  have played := play_component (fun s => (s.pollStop, s.poll))
    (fun s c => { s with pollStop := c.1, poll := c.2 })
    (fun c (_ : Unit) => (c.1, c.2.next c.1)) (fun _ => Turn.poll)
    (fun _ => rfl) (fun _ _ => rfl) (fun _ _ _ => rfl) (fun _ _ => rfl) s [(), ()]
  refine ⟨_, _, by simp [Turn.isQuiet], played, rfl, rfl, ?_⟩
  cases s.poll <;> simp [Runs.run, Bot.passes, PacedPc.next, stop]

theorem play_runner (i : ℕ) {A : Type} (step : Runner → A → Runner) (turn : A → Turn)
    (steps : ∀ (s : Bot) a, s.step (turn a) = some (s.setRunner i (step (s.runners i) a))) (s : Bot)
    (acts : List A) :
    s.play (acts.map turn) = some (s.setRunner i (Runs.run step (s.runners i) acts)) := by
  refine play_component (fun s => s.runners i) (fun s r => s.setRunner i r) step turn ?_ ?_ ?_ steps s acts
  · intro s
    simp [Bot.setRunner]
  · intro s r
    simp [Bot.setRunner]
  · intro s r r'
    simp [Bot.setRunner]

theorem watchdog_opens {i : ℕ} (stop : (s.runners i).stop = true) : Opens s (.joinWatchdog i) := by
  have played := play_runner i (fun r (_ : Unit) => r.watchdogStep none)
    (fun _ => Turn.watchdog i none) (fun _ _ => rfl) s [(), ()]
  refine ⟨_, _, by simp [Turn.isQuiet], played, rfl, rfl, ?_⟩
  cases pc : (s.runners i).watchdog <;>
    simp [Runs.run, Bot.passes, Bot.setRunner, Runner.watchdogStep, PacedPc.next, stop, pc]

theorem strategy_opens {i : ℕ} (stop : (s.runners i).stop = true) : Opens s (.joinStrategy i) := by
  have played := play_runner i drainStep (fun _ => Turn.strategy i) (fun _ _ => rfl) s
    (List.replicate (s.runners i).rank ())
  refine ⟨_, _, by simp [Turn.isQuiet], played, rfl, rfl, ?_⟩
  have ended := strategy_ends (s.runners i).rank stop (Or.inr le_rfl)
  simp [Bot.passes, Bot.setRunner, ended]

/-- The stream ends, far from the maintenance window. -/
def quietInput : Input (List (OrderReport × ℤ)) ℤ Draw := ⟨none, 0, .of 400⟩

theorem orders_open (stop : ∀ o ∈ s.orders, o.stop = true) : Opens s .joinOrders := by
  have played := play_component (fun s => s.orders) (fun s o => { s with orders := o })
    (fun o input => o.map fun o => runOrderStream.step o (.thread input)) Turn.orders
    (fun _ => rfl) (fun _ _ => rfl) (fun _ _ _ => rfl) (fun _ _ => rfl) s (List.replicate 6 quietInput)
  refine ⟨_, _, by simp [Turn.isQuiet, quietInput], played, rfl, rfl, ?_⟩
  cases there : s.orders with
  | none => rfl
  | some o =>
    have winding := StreamLoop.stopped_run (p := runOrderStream) (stop o there)
      (List.replicate 6 (.thread quietInput))
    have most := StreamLoop.rank_le_six o.pc
    have left := winding.rank
    have done : (Runs.run runOrderStream.step o (List.replicate 6 (.thread quietInput))).pc = .done :=
      StreamLoop.done_of_rank (Nat.le_zero.mp (left.trans (Nat.sub_eq_zero_of_le most).le))
    exact decide_eq_true done

theorem token_opens (owned : ∃ pc, Owned secret pc s.auth.manager) (stop : s.auth.manager.stop = true) :
    Opens s .joinToken := by
  obtain ⟨pc, owned⟩ := owned
  have played := play_component (fun s => s.auth) (fun s c => { s with auth := c })
    (fun c token => c.step (.renewal token)) Turn.renewal
    (fun _ => rfl) (fun _ _ => rfl) (fun _ _ _ => rfl) (fun _ _ => rfl) s (List.replicate 4 none)
  refine ⟨_, _, by simp [Turn.isQuiet], played, rfl, rfl, ?_⟩
  obtain ⟨last, ownedLast, rank, -⟩ :=
    (FinamAuth.stopped_run stop owned (List.replicate 4 (.renewal none))).left
  have most : pc.rank ≤ 4 := by cases pc <;> decide
  have ended : last = .ended := by
    have zero : last.rank ≤ 0 := rank.trans (Nat.sub_eq_zero_of_le most).le
    cases last <;> first | rfl | cases zero
  subst ended
  exact decide_eq_true ownedLast.renewal

theorem opens_next (reached : Reached secret runners s seen) (signalled : s.signal = true)
    {k : Instr} {rest : List Instr} (ahead : s.main = k :: rest) : Opens s k := by
  have guarded := reached.guarded
  rw [ahead] at guarded
  have flag : ∀ j ∈ k.needs, Done s j := fun j needed => reached.done j (guarded.1 j needed)
  cases k with
  | await => exact opens_at_once signalled
  | joinHealth => exact health_opens (flag .stopHealth rfl)
  | joinWatchdog i => exact watchdog_opens (flag (.stopRunner i) rfl)
  | joinStrategy i => exact strategy_opens (flag (.stopRunner i) rfl)
  | joinOrders => exact orders_open (flag .stopOrders rfl)
  | joinRisk => exact poll_opens (flag .stopRisk rfl)
  | joinToken => exact token_opens reached.owned (flag .stopToken rfl)
  | stopHealth | stopRunner | destroy | stopOrders | stopRisk | stopToken => exact opens_at_once rfl

theorem execute_signal (k : Instr) : (s.execute k).signal = s.signal := by
  cases k <;> rfl

/-- From a signalled state the threads bring `main` to its end. -/
theorem main_returns (rest : List Instr) (reached : Reached secret runners s seen)
    (signalled : s.signal = true) (ahead : s.main = rest) :
    ∃ turns next, (∀ a ∈ turns, Turn.isQuiet a = true) ∧ s.play turns = some next ∧ next.main = [] := by
  induction rest generalizing s seen with
  | nil => exact ⟨[], s, by simp, rfl, ahead⟩
  | cons k rest ih =>
    obtain ⟨turns, middle, quiet, played, main, signal, passes⟩ := opens_next reached signalled ahead
    obtain ⟨more, reached⟩ := reached_play turns reached played
    have executed := reached_executed reached (main.trans ahead) passes
    have still : (middle.execute k).signal = true := (execute_signal k).trans (signal.trans signalled)
    obtain ⟨later, next, quietLater, playedLater, returned⟩ := ih executed still rfl
    have one : middle.play [.main] = some { middle.execute k with main := rest } := by
      simp [Bot.play, Bot.step, Bot.mainStep, main.trans ahead, passes]
    refine ⟨turns ++ ([.main] ++ later), next, ?_, play_append played (play_append one playedLater), returned⟩
    intro a member
    rcases List.mem_append.mp member with first | last
    · exact quiet a first
    · rcases List.mem_cons.mp last with rfl | after
      · rfl
      · exact quietLater a after

end Progress

end FinamShutdown
