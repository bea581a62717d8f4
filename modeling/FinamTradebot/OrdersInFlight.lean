import FinamTradebot.StrategyRunner
import Mathlib.Algebra.Order.BigOperators.Group.List

/-!
Orders in flight. The strategy changes its position only when a fill is dispatched,
so between the submission of an order and its terminal update it decides on old
data. A desk is a runner with the orders the executor has accepted and whose
terminal update has not been dispatched; neither is visible to the code.
-/
namespace FinamInFlight
open FinamInterfaces FinamOrderBook FinamConfluence FinamRunner Runs

structure InFlight where
  transactionId : ℤ
  isClose : Bool
  quantity : ℤ
  ts : ℤ
  deriving DecidableEq

structure Desk where
  runner : StrategyRunner
  inFlight : List InFlight := []

structure DeskAction where
  action : Action
  reply : Result ℤ

def settles : Action → InFlight → Bool
  | .dispatch (.order upd) _ _, f =>
    decide (upd.transactionId = f.transactionId) && decide upd.status.Terminal
  | _, _ => false

def accepted (a : DeskAction) : List Effect → List InFlight
  | [] => []
  | .trip _ :: rest => accepted a rest
  | .submit isClose req :: rest =>
    match a.reply with
    | .ok localId => ⟨toInt32 localId, isClose, req.quantity, a.action.ts⟩ :: accepted a rest
    | .error _ => accepted a rest

def Desk.remaining (d : Desk) (a : DeskAction) : List InFlight :=
  d.inFlight.filter (fun f => !settles a.action f)

def Desk.step (libm : Libm) (d : Desk) (a : DeskAction) : Desk :=
  { runner := d.runner.step libm a.action
    inFlight := d.remaining a ++ accepted a (d.runner.effects libm a.action) }

def closes (orders : List InFlight) : List InFlight := orders.filter (·.isClose)
def entries (orders : List InFlight) : List InFlight := orders.filter (fun f => !f.isClose)
def closeQty (orders : List InFlight) : ℤ := ((closes orders).map (·.quantity)).sum

def isCloseOrder : Effect → Bool
  | .submit isClose _ => isClose
  | .trip _ => false

def isEntryOrder : Effect → Bool
  | .submit isClose _ => !isClose
  | .trip _ => false

section Closing
variable {libm : Libm} {d : Desk} {a : DeskAction}

theorem close_order_iff (libm : Libm) (r : StrategyRunner) (act : Action) :
    (r.effects libm act).any isCloseOrder = true ↔ r.exits act := by
  constructor
  · intro found
    obtain ⟨effect, member, kind⟩ := List.any_eq_true.mp found
    cases effect with
    | trip reason => simp [isCloseOrder] at kind
    | submit isClose req =>
      rcases submit_cases member with ⟨-, exits, -⟩ | ⟨entry, -⟩
      · exact exits
      · simp [isCloseOrder, entry] at kind
  · intro exits
    simp [effects_of_exit exits, isCloseOrder]

theorem accepted_kind {effects : List Effect} {f : InFlight} (member : f ∈ accepted a effects) :
    ∃ req, Effect.submit f.isClose req ∈ effects ∧ f.quantity = req.quantity ∧
      f.ts = a.action.ts := by
  induction effects with
  | nil => simp [accepted] at member
  | cons effect rest ih =>
    have later (tail : f ∈ accepted a rest) : ∃ req, Effect.submit f.isClose req ∈ effect :: rest ∧
        f.quantity = req.quantity ∧ f.ts = a.action.ts := by
      obtain ⟨req, found, same⟩ := ih tail
      exact ⟨req, List.mem_cons_of_mem effect found, same⟩
    cases effect with
    | trip reason => exact later member
    | submit isClose req =>
      simp only [accepted] at member
      split at member
      · rcases List.mem_cons.mp member with rfl | tail
        · exact ⟨req, by simp, rfl, rfl⟩
        · exact later tail
      · exact later member

theorem accepted_no_close (quiet : ¬ d.runner.exits a.action) :
    closes (accepted a (d.runner.effects libm a.action)) = [] := by
  apply List.filter_eq_nil_iff.mpr
  intro f member close
  obtain ⟨req, found, -⟩ := accepted_kind member
  have fires : (d.runner.effects libm a.action).any isCloseOrder = true :=
    List.any_eq_true.mpr ⟨_, found, close⟩
  exact quiet ((close_order_iff libm d.runner a.action).mp fires)

theorem close_qty_append (xs ys : List InFlight) :
    closeQty (xs ++ ys) = closeQty xs + closeQty ys := by
  simp [closeQty, closes]

theorem close_qty_empty {xs : List InFlight} (none : closes xs = []) : closeQty xs = 0 := by
  simp [closeQty, none]

def Desk.Positive (d : Desk) : Prop := ∀ f ∈ d.inFlight, f.isClose = true → 0 < f.quantity

theorem close_qty_pos {xs : List InFlight} (positive : ∀ f ∈ xs, f.isClose = true → 0 < f.quantity)
    (some : closes xs ≠ []) : 0 < closeQty xs := by
  apply List.sum_pos
  · intro qty member
    obtain ⟨f, found, rfl⟩ := List.mem_map.mp member
    obtain ⟨inside, close⟩ := List.mem_filter.mp found
    exact positive f inside close
  · simpa using some

def OneClose (libm : Libm) (d : Desk) (a : DeskAction) : Prop :=
  (d.runner.effects libm a.action).any isCloseOrder = true → closes d.inFlight = []

def Desk.Covered (d : Desk) : Prop := closeQty d.inFlight ≤ |d.runner.strategy.position|

/-- The condition on the state before an action: with a Close order in flight, no
    quote that meets an exit rule is dispatched, and while the order stays in flight
    neither a session reset nor the fill of another order takes the position below
    its quantity. -/
def Undisturbed (d : Desk) (a : DeskAction) : Prop :=
  (closes d.inFlight ≠ [] → ¬ d.runner.exits a.action) ∧
    (closes (d.remaining a) ≠ [] → d.runner.resets a.action = false ∧
      closeQty (d.remaining a) ≤ |d.runner.strategy.position + a.action.fill|)

instance (libm : Libm) (d : Desk) (a : DeskAction) : Decidable (OneClose libm d a) :=
  inferInstanceAs (Decidable (_ → _))

instance (d : Desk) : Decidable d.Covered := inferInstanceAs (Decidable (_ ≤ _))

instance (d : Desk) (a : DeskAction) : Decidable (Undisturbed d a) :=
  inferInstanceAs (Decidable (_ ∧ _))

theorem exit_is_quote {r : StrategyRunner} {act : Action} (exits : r.exits act) :
    (∀ f, settles act f = false) ∧ r.resets act = false ∧ act.fill = 0 ∧
      r.strategy.position ≠ 0 := by
  cases act with
  | bar b => exact exits.elim
  | dispatch e risk history =>
    cases e with
    | quote q =>
      refine ⟨fun _ => rfl, ?_, rfl, exits.2.2.1⟩
      simp [StrategyRunner.resets, ConfluenceStrategy.quoteResets, exits.2.1]
    | book | trade | order | rollover => exact exits.elim

theorem exit_remaining (exits : d.runner.exits a.action) : d.remaining a = d.inFlight := by
  simp [Desk.remaining, (exit_is_quote exits).1]

theorem exit_accepted_qty (libm : Libm) (exits : d.runner.exits a.action) :
    closeQty (accepted a (d.runner.effects libm a.action)) ≤ |d.runner.strategy.position| := by
  rw [effects_of_exit exits]
  cases reply : a.reply with
  | error e => simp [accepted, reply, closeQty, closes]
  | ok localId => simp [accepted, reply, closeQty, closes, StrategyRunner.closeRequest]

theorem desk_position : (d.step libm a).runner.strategy.position =
    if d.runner.resets a.action then 0 else d.runner.strategy.position + a.action.fill :=
  (step_frame libm d.runner a.action).position

theorem exit_step_exact (exits : d.runner.exits a.action) :
    OneClose libm d a ∧ (d.step libm a).Covered ↔ Undisturbed d a := by
  have fires := (close_order_iff libm d.runner a.action).mpr exits
  have stays := exit_remaining exits
  constructor
  · rintro ⟨alone, -⟩
    have none := alone fires
    exact ⟨fun some => (some none).elim, fun some => (some (by rw [stays]; exact none)).elim⟩
  · rintro ⟨alone, -⟩
    have none : closes d.inFlight = [] := by
      by_contra some
      exact alone some exits
    obtain ⟨-, kept, unfilled, -⟩ := exit_is_quote exits
    refine ⟨fun _ => none, ?_⟩
    have new := exit_accepted_qty libm exits
    simp only [Desk.Covered, desk_position, kept, unfilled]
    simp only [Desk.step, close_qty_append, stays, close_qty_empty none]
    simpa using new

theorem quiet_step_exact (positive : d.Positive) (quiet : ¬ d.runner.exits a.action) :
    OneClose libm d a ∧ (d.step libm a).Covered ↔ Undisturbed d a := by
  have silent : OneClose libm d a := fun fires =>
    (quiet ((close_order_iff libm d.runner a.action).mp fires)).elim
  have total : closeQty (d.step libm a).inFlight = closeQty (d.remaining a) := by
    simp only [Desk.step, close_qty_append, close_qty_empty (accepted_no_close quiet), add_zero]
  simp only [silent, true_and, Desk.Covered, total, desk_position, Undisturbed, quiet,
    not_false_eq_true, implies_true]
  by_cases none : closes (d.remaining a) = []
  · simp [none, close_qty_empty none]
  · have held : 0 < closeQty (d.remaining a) :=
      close_qty_pos (fun f member => positive f (List.mem_of_mem_filter member)) none
    cases d.runner.resets a.action with
    | true => simp [none]; omega
    | false => simp [none]

theorem positive_step (positive : d.Positive) : (d.step libm a).Positive := by
  intro f member close
  rcases List.mem_append.mp member with old | new
  · exact positive f (List.mem_of_mem_filter old) close
  · obtain ⟨req, found, quantity, -⟩ := accepted_kind new
    rw [close] at found
    rcases submit_cases found with ⟨-, exits, rfl⟩ | ⟨entry, -⟩
    · rw [quantity]
      exact abs_pos.mpr (exit_is_quote exits).2.2.2
    · simp at entry

/-- In every run of a runner, no Close order is submitted while another one is in
    flight and the Close orders in flight never exceed the position, exactly if every
    action is undisturbed. -/
theorem no_over_closing_iff (libm : Libm) (cfg : RunnerConfig) (account : String)
    (history : Result (List Bar)) (acts : List DeskAction) :
    let d : Desk := { runner := .init libm cfg account history }
    Along (Desk.step libm) (OneClose libm) d acts ∧
        Visits (Desk.step libm) Desk.Covered d acts ↔
      Along (Desk.step libm) Undisturbed d acts := by
  refine good_run_iff (I := Desk.Positive) ?_ ?_ ?_ ?_
  · intro d a positive _
    by_cases exits : d.runner.exits a.action
    · exact exit_step_exact exits
    · exact quiet_step_exact positive exits
  · intro d a positive _ _
    exact positive_step positive
  · simp [Desk.Positive]
  · simp [Desk.Covered, closeQty, closes]

/-- One long contract, a price below the stop, two quotes before the fill of the first
    Close order arrives: two Close orders for one contract. -/
theorem second_close_in_flight :
    let d : Desk := { runner := .init flatLibm ⟨makeCfg, "Si", 20, 5⟩ "ACC001" (.ok []) }
    let acts : List DeskAction :=
      [⟨dispatched (.order (makeFill .buy 100 1)), .ok 1⟩,
       ⟨dispatched (.quote (makeQuote 69 70 0)), .ok 2⟩,
       ⟨dispatched (.quote (makeQuote 69 70 1)), .ok 3⟩]
    ¬ Along (Desk.step flatLibm) (OneClose flatLibm) d acts ∧
      ¬ Visits (Desk.step flatLibm) Desk.Covered d acts := by
  decide +kernel

end Closing

section Entering
variable {libm : Libm} {d : Desk} {a : DeskAction}

def isFlow : Action → Bool
  | .dispatch (.book _) _ _ | .dispatch (.trade _) _ _ | .dispatch (.order _) _ _ => true
  | _ => false

theorem try_enter_signal_ts (s : ConfluenceStrategy) (ts : ℤ) :
    s.lastSignalTs ≤ (s.tryEnter ts).1.lastSignalTs := by
  cases result : s.tryEnter ts with
  | mk t signal =>
    cases signal with
    | none => rw [try_enter_none result]
    | some sig =>
      obtain ⟨may, rfl, -⟩ := try_enter_some result
      have cooled := may.cooled
      have second : (0 : ℤ) < nsPerSec := by decide
      simp only
      omega

theorem flow_signal_ts {r : StrategyRunner} {act : Action} (flow : isFlow act = true) :
    r.strategy.lastSignalTs ≤ (r.step libm act).strategy.lastSignalTs := by
  cases act with
  | bar b => simp [isFlow] at flow
  | dispatch e risk history =>
    cases e with
    | book e => exact try_enter_signal_ts _ e.ts
    | trade e => exact try_enter_signal_ts _ e.ts
    | order upd =>
      obtain ⟨entry, eq, -⟩ := update_frame r.strategy upd
      simp [StrategyRunner.step, StrategyRunner.perform, StrategyRunner.dispatch, eq]
    | quote | rollover => simp [isFlow] at flow

def Desk.Stamped (d : Desk) : Prop :=
  ∀ f ∈ entries d.inFlight, f.ts ≤ d.runner.strategy.lastSignalTs

theorem stamped_step (stamped : d.Stamped) (flow : isFlow a.action = true) :
    (d.step libm a).Stamped := by
  intro f member
  obtain ⟨inside, kind⟩ := List.mem_filter.mp member
  have entry : f.isClose = false := by simpa using kind
  rcases List.mem_append.mp inside with old | new
  · have before := stamped f (List.mem_filter.mpr ⟨List.mem_of_mem_filter old, kind⟩)
    exact le_trans before (flow_signal_ts flow)
  · obtain ⟨req, found, -, ts⟩ := accepted_kind new
    rw [entry] at found
    rcases submit_cases found with ⟨close, -⟩ | ⟨-, enters⟩
    · simp at close
    · rw [ts]
      exact le_of_eq enters.stamped.symm

def SpacedEntry (libm : Libm) (d : Desk) (a : DeskAction) : Prop :=
  (d.runner.effects libm a.action).any isEntryOrder = true →
    d.runner.strategy.position = 0 ∧
      ∀ f ∈ entries d.inFlight, 5 * nsPerSec ≤ a.action.ts - f.ts

def OneEntry (libm : Libm) (d : Desk) (a : DeskAction) : Prop :=
  (d.runner.effects libm a.action).any isEntryOrder = true → entries d.inFlight = []

instance (libm : Libm) (d : Desk) (a : DeskAction) : Decidable (OneEntry libm d a) :=
  inferInstanceAs (Decidable (_ → _))

theorem entry_is_spaced (stamped : d.Stamped) : SpacedEntry libm d a := by
  intro fires
  obtain ⟨effect, member, kind⟩ := List.any_eq_true.mp fires
  cases effect with
  | trip reason => simp [isEntryOrder] at kind
  | submit isClose req =>
    rcases submit_cases member with ⟨close, -⟩ | ⟨-, enters⟩
    · simp [isEntryOrder, close] at kind
    · refine ⟨enters.flat, fun f inside => ?_⟩
      have before := stamped f inside
      have cooled := enters.cooled
      omega

/-- From any state of a runner without an entry order in flight, in every sequence of
    book events, trade events and order updates and for every delay between an order
    and its updates, an entry order is submitted only with a flat position and at
    least five seconds of event time after each entry order still in flight. -/
theorem entries_spaced_by_cooldown (libm : Libm) (r : StrategyRunner) (acts : List DeskAction)
    (flow : ∀ a ∈ acts, isFlow a.action = true) :
    Along (Desk.step libm) (SpacedEntry libm) { runner := r } acts := by
  have start : Desk.Stamped { runner := r } := by simp [Desk.Stamped, entries]
  generalize ({ runner := r } : Desk) = d at start
  induction acts generalizing d with
  | nil => trivial
  | cons a rest ih =>
    refine ⟨entry_is_spaced start, ih (fun b later => flow b (by simp [later])) _ ?_⟩
    exact stamped_step start (flow a (by simp))

def brokenOut : StrategyRunner :=
  let cfg : RunnerConfig := { strategy := { makeCfg with baseQty := 2 } }
  .reached flatLibm cfg "ACC001" (.ok [])
    [.bar openingBar, dispatched (.quote (makeQuote 110 111 (436 * 60 * nsPerSec)))]

theorem entries_spaced_at_breakout :
    Along (Desk.step flatLibm) (SpacedEntry flatLibm) { runner := brokenOut }
      [⟨dispatched (flowTrade 1), .ok 1⟩, ⟨dispatched (flowBook 2), .ok 1⟩,
       ⟨dispatched (flowTrade 7), .ok 2⟩] :=
  entries_spaced_by_cooldown flatLibm brokenOut _ (by decide)

/-- The update of the first entry order takes more than five seconds: the next trade
    submits a second entry order while the first is in flight. -/
theorem second_entry_in_flight :
    let acts : List DeskAction :=
      [⟨dispatched (flowTrade 1), .ok 1⟩, ⟨dispatched (flowBook 2), .ok 1⟩,
       ⟨dispatched (flowTrade 7), .ok 2⟩]
    (∀ a ∈ acts, isFlow a.action = true) ∧
      ¬ Along (Desk.step flatLibm) (OneEntry flatLibm) { runner := brokenOut } acts ∧
      (entries (run (Desk.step flatLibm) { runner := brokenOut } acts).inFlight).length = 2 := by
  decide +kernel

end Entering

end FinamInFlight
