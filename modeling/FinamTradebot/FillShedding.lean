import FinamTradebot.StrategyRunner
import Mathlib.Algebra.Order.BigOperators.Group.List

/-!
Fills under market data load. Order updates share the bounded queue of the runner with
the market data, and the risk manager counts a fill before the push that may fail. The
ledger of a run adds up the fill quantities on both sides of that push.
-/
namespace FinamShedding
open FinamInterfaces FinamOrderBook FinamConfluence FinamRunner Runs

def isFill (upd : OrderUpdate) : Bool :=
  (decide (upd.status = .filled) || decide (upd.status = .partialFill)) && decide (0 < upd.qtyFilled)

def fillQty (upd : OrderUpdate) : ℤ := if isFill upd then upd.qtyFilled else 0

def eventQty : MdEvent → ℤ
  | .order upd => fillQty upd
  | .book _ | .trade _ | .quote _ | .rollover _ => 0

/-- `risk` is the quantity passed to `on_fill`, `handed` that passed to the strategy's
    `on_order_update`; `discarded` are the updates that passed the symbol filter and found
    the queue full. -/
structure Ledger where
  runner : StrategyRunner
  risk : ℤ := 0
  handed : ℤ := 0
  discarded : List OrderUpdate := []

inductive Turn where
  | market (e : MdEvent)
  | order (upd : OrderUpdate)
  | bar (b : Bar)
  | watch (next : Symbol)
  | drain (risk : RiskCheck) (history : Result (List Bar))

def pushMarket (r : StrategyRunner) : MdEvent → StrategyRunner
  | .book e => (r.push (.book e)).1
  | .trade e => (r.push (.trade e)).1
  | .quote q => (r.push (.quote q)).1
  | .order _ | .rollover _ => r

def Ledger.callback (l : Ledger) (upd : OrderUpdate) : Ledger :=
  let routed := makeOrderCallback true l.runner upd
  { l with
    runner := routed.runner
    risk := l.risk + if routed.onFill then upd.qtyFilled else 0
    discarded := if l.runner.passesFilter upd && !routed.pushed then l.discarded ++ [upd]
      else l.discarded }

def Ledger.drain (libm : Libm) (l : Ledger) (risk : RiskCheck) (history : Result (List Bar)) : Ledger :=
  match l.runner.queue with
  | [] => l
  | e :: rest =>
    { l with
      runner := ({ l.runner with queue := rest }.dispatch libm risk history e).1
      handed := l.handed + eventQty e }

def Ledger.step (libm : Libm) (l : Ledger) : Turn → Ledger
  | .market e => { l with runner := pushMarket l.runner e }
  | .order upd => l.callback upd
  | .bar b => { l with runner := { l.runner with strategy := (l.runner.strategy.onBar b).1 } }
  | .watch next => { l with runner := (l.runner.checkRollover next).1 }
  | .drain risk history => l.drain libm risk history

def Ledger.queued (l : Ledger) : ℤ := (l.runner.queue.map eventQty).sum

def Ledger.lost (l : Ledger) : ℤ := (l.discarded.map fillQty).sum

def Ledger.Agrees (l : Ledger) : Prop := l.risk = l.handed + l.queued

/-- An update is discarded only where it passed the symbol filter and met a full queue. -/
def ShedWhenFull (libm : Libm) (l : Ledger) (a : Turn) : Prop :=
  (l.step libm a).discarded = l.discarded ∨
    ∃ upd, a = .order upd ∧ l.runner.passesFilter upd = true ∧
      l.runner.queue.length = kQueueSize - 1 ∧ (l.step libm a).discarded = l.discarded ++ [upd]

structure Ledger.Accounted (l : Ledger) : Prop where
  balance : l.risk = l.handed + l.queued + l.lost
  agrees : l.Agrees ↔ ∀ upd ∈ l.discarded, isFill upd = false

section Step
variable {libm : Libm} {l : Ledger} {a : Turn}

structure Ledger.Balanced (l : Ledger) : Prop where
  bounded : l.runner.queue.length ≤ kQueueSize - 1
  balance : l.risk = l.handed + l.queued + l.lost

theorem fill_qty_nonneg (upd : OrderUpdate) : 0 ≤ fillQty upd := by
  unfold fillQty
  split
  · rename_i fill
    simp only [isFill, Bool.and_eq_true, decide_eq_true_eq] at fill
    omega
  · exact le_rfl

theorem fill_qty_zero (upd : OrderUpdate) : fillQty upd = 0 ↔ isFill upd = false := by
  unfold fillQty
  cases fill : isFill upd with
  | false => simp
  | true =>
    simp only [isFill, Bool.and_eq_true, decide_eq_true_eq] at fill
    simp only [↓reduceIte, Bool.true_eq_false, iff_false]
    omega

theorem lost_zero (updates : List OrderUpdate) :
    (updates.map fillQty).sum = 0 ↔ ∀ upd ∈ updates, isFill upd = false := by
  induction updates with
  | nil => simp
  | cons first rest ih =>
    have nonneg : 0 ≤ (rest.map fillQty).sum :=
      List.sum_nonneg (by simpa using fun upd _ => fill_qty_nonneg upd)
    have firstNonneg := fill_qty_nonneg first
    rw [List.map_cons, List.sum_cons, List.forall_mem_cons, ← ih, ← fill_qty_zero]
    omega

theorem accounted (balanced : l.Balanced) : l.Accounted := by
  have balance := balanced.balance
  refine ⟨balance, ?_⟩
  rw [← lost_zero]
  change l.risk = l.handed + l.queued ↔ l.lost = 0
  omega

/-- A push of an event that is no fill moves nothing. -/
theorem push_balanced {e : MdEvent} (balanced : l.Balanced) (none : eventQty e = 0) :
    Ledger.Balanced { l with runner := (l.runner.push e).1 } := by
  obtain ⟨bounded, balance⟩ := balanced
  rcases push_cases l.runner e with ⟨room, pushed⟩ | ⟨-, full⟩
  · rw [pushed]
    refine ⟨by simp only [List.length_append, List.length_singleton]; omega, ?_⟩
    simp only [Ledger.queued, Ledger.lost, List.map_append, List.map_cons, List.map_nil,
      List.sum_append, List.sum_cons, List.sum_nil, none] at balance ⊢
    omega
  · rw [full]
    exact ⟨bounded, balance⟩

theorem market_balanced {e : MdEvent} (balanced : l.Balanced) :
    Ledger.Balanced { l with runner := pushMarket l.runner e } := by
  cases e with
  | book e => exact push_balanced balanced rfl
  | trade e => exact push_balanced balanced rfl
  | quote q => exact push_balanced balanced rfl
  | order upd => exact balanced
  | rollover next => exact balanced

theorem callback_cases (l : Ledger) (upd : OrderUpdate) :
    (l.runner.passesFilter upd = false ∧ l.callback upd = l) ∨
    (l.runner.passesFilter upd = true ∧ l.runner.queue.length < kQueueSize - 1 ∧ l.callback upd =
      { l with
        runner := { l.runner with queue := l.runner.queue ++ [.order upd] }
        risk := l.risk + fillQty upd }) ∨
    (l.runner.passesFilter upd = true ∧ kQueueSize - 1 ≤ l.runner.queue.length ∧ l.callback upd =
      { l with risk := l.risk + fillQty upd, discarded := l.discarded ++ [upd] }) := by
  unfold Ledger.callback makeOrderCallback
  cases passes : l.runner.passesFilter upd with
  | false => exact Or.inl ⟨rfl, by simp⟩
  | true =>
    refine Or.inr ?_
    rcases push_cases l.runner (.order upd) with ⟨room, pushed⟩ | ⟨full, refused⟩
    · exact Or.inl ⟨rfl, room, by simp [pushed, fillQty, isFill]⟩
    · exact Or.inr ⟨rfl, full, by simp [refused, fillQty, isFill]⟩

theorem callback_balanced (balanced : l.Balanced) (upd : OrderUpdate) : (l.callback upd).Balanced := by
  have bounded := balanced.bounded
  have balance := balanced.balance
  rcases callback_cases l upd with ⟨-, same⟩ | ⟨-, room, pushed⟩ | ⟨-, -, shed⟩
  · rw [same]
    exact balanced
  · rw [pushed]
    refine ⟨by simp only [List.length_append, List.length_singleton]; omega, ?_⟩
    simp only [Ledger.queued, Ledger.lost, List.map_append, List.map_cons, List.map_nil,
      List.sum_append, List.sum_cons, List.sum_nil, eventQty] at balance ⊢
    omega
  · rw [shed]
    refine ⟨bounded, ?_⟩
    simp only [Ledger.queued, Ledger.lost, List.map_append, List.map_cons, List.map_nil,
      List.sum_append, List.sum_cons, List.sum_nil] at balance ⊢
    omega

theorem drain_balanced (balanced : l.Balanced) (risk : RiskCheck) (history : Result (List Bar)) :
    (l.drain libm risk history).Balanced := by
  have bounded := balanced.bounded
  have balance := balanced.balance
  unfold Ledger.drain
  cases waiting : l.runner.queue with
  | nil => exact balanced
  | cons e rest =>
    rw [waiting] at bounded
    simp only [Ledger.queued, Ledger.lost, waiting, List.map_cons, List.sum_cons] at balance
    constructor
    · simp only [dispatch_queue]
      exact (Nat.le_succ _).trans bounded
    · simp only [Ledger.queued, Ledger.lost, dispatch_queue]
      omega

theorem watch_balanced (balanced : l.Balanced) (next : Symbol) :
    Ledger.Balanced { l with runner := (l.runner.checkRollover next).1 } := by
  unfold StrategyRunner.checkRollover
  split
  · exact balanced
  · exact push_balanced balanced rfl

theorem balanced_step (balanced : l.Balanced) : (l.step libm a).Balanced := by
  cases a with
  | market e => exact market_balanced balanced
  | order upd => exact callback_balanced balanced upd
  | bar b => exact ⟨balanced.bounded, balanced.balance⟩
  | watch next => exact watch_balanced balanced next
  | drain risk history => exact drain_balanced balanced risk history

theorem drain_discards (l : Ledger) (risk : RiskCheck) (history : Result (List Bar)) :
    (l.drain libm risk history).discarded = l.discarded := by
  unfold Ledger.drain
  split <;> rfl

theorem shed_when_full (balanced : l.Balanced) : ShedWhenFull libm l a := by
  cases a with
  | market e => exact Or.inl rfl
  | order upd =>
    rcases callback_cases l upd with ⟨-, same⟩ | ⟨-, -, pushed⟩ | ⟨passes, full, shed⟩
    · exact Or.inl (show (l.callback upd).discarded = _ by rw [same])
    · exact Or.inl (show (l.callback upd).discarded = _ by rw [pushed])
    · refine Or.inr ⟨upd, rfl, passes, le_antisymm balanced.bounded full, ?_⟩
      show (l.callback upd).discarded = _
      rw [shed]
  | bar b => exact Or.inl rfl
  | watch next => exact Or.inl rfl
  | drain risk history => exact Or.inl (drain_discards l risk history)

end Step

/-- For every sequence of events and every schedule of the strategy thread: an update is
    discarded only at a full queue, the quantity the risk manager has counted is the
    quantity handed on, still queued or discarded, and so the two views agree exactly
    while no fill has met a full queue. -/
theorem fills_shed_only_when_full (libm : Libm) (cfg : RunnerConfig) (account : String)
    (history : Result (List Bar)) (turns : List Turn) :
    let start : Ledger := { runner := .init libm cfg account history }
    Along (Ledger.step libm) (ShedWhenFull libm) start turns ∧
      Visits (Ledger.step libm) Ledger.Accounted start turns := by
  intro start
  have empty : start.Balanced := ⟨Nat.zero_le _, rfl⟩
  have balanced : Visits (Ledger.step libm) Ledger.Balanced start turns :=
    visits_invariant (fun l a balanced => balanced_step balanced) turns empty
  have shed : Along (Ledger.step libm) (ShedWhenFull libm) start turns :=
    along_invariant (I := Ledger.Balanced) (fun l a balanced => shed_when_full balanced)
      (fun l a balanced => balanced_step balanced) turns empty
  exact ⟨shed, visits_mono (fun l balanced => accounted balanced) balanced⟩

/-- A burst of deep bids that fits into the queue is all queued. -/
theorem burst_queued (libm : Libm) {l : Ledger} {e : BookLevelEvent} (n : ℕ)
    (fits : l.runner.queue.length + n ≤ kQueueSize - 1) :
    run (Ledger.step libm) l (List.replicate n (.market (.book e))) =
      { l with runner := { l.runner with queue := l.runner.queue ++ List.replicate n (.book e) } } := by
  induction n generalizing l with
  | zero => simp [run]
  | succ n ih =>
    have pushed : l.step libm (.market (.book e)) =
        { l with runner := { l.runner with queue := l.runner.queue ++ [.book e] } } := by
      rcases push_cases l.runner (.book e) with ⟨-, room⟩ | ⟨full, -⟩
      · simp only [Ledger.step, pushMarket, room]
      · omega
    have room : (l.runner.queue ++ [MdEvent.book e]).length + n ≤ kQueueSize - 1 := by
      rw [List.length_append, List.length_singleton]
      omega
    rw [List.replicate_succ, run, pushed, ih room]
    simp [List.replicate_succ]

/-- A fill of two contracts after 1023 book events: counted by the risk manager, neither
    queued nor handed to the strategy. -/
theorem fill_shed_in_burst :
    let start : Ledger := { runner := .init flatLibm { strategy := makeCfg } "account" (.ok []) }
    let bid : BookLevelEvent :=
      { level := 0, price := 110, oldBidSize := 0, newBidSize := 100, oldAskSize := 0,
        newAskSize := 0, ts := 0 }
    let burst : List Turn := List.replicate 1023 (.market (.book bid))
    let last := run (Ledger.step flatLibm) start (burst ++ [.order (makeFill .buy 100 2)])
    last.discarded = [makeFill .buy 100 2] ∧ 0 < (makeFill .buy 100 2).qtyFilled ∧
      last.risk = 2 ∧ last.handed + last.queued = 0 ∧ ¬last.Agrees := by
  intro start bid burst last
  have full : run (Ledger.step flatLibm) start burst =
      { start with
        runner := { start.runner with queue := List.replicate 1023 (.book bid) } } :=
    burst_queued flatLibm 1023 (by decide)
  have shed : last =
      { start with
        runner := { start.runner with queue := List.replicate 1023 (.book bid) }
        risk := 2
        discarded := [makeFill .buy 100 2] } := by
    simp only [last]
    rw [run_append, full]
    rcases callback_cases { start with
        runner := { start.runner with queue := List.replicate 1023 (.book bid) } }
        (makeFill .buy 100 2) with ⟨foreign, -⟩ | ⟨-, room, -⟩ | ⟨-, -, done⟩
    · exact absurd foreign (by decide +kernel)
    · rw [List.length_replicate] at room
      exact absurd room (by decide)
    · exact done
  have noFill : ∀ n, ((List.replicate n (MdEvent.book bid)).map eventQty).sum = 0 := by
    intro n
    simp [eventQty]
  have none : last.queued = 0 := by
    rw [shed]
    exact noFill 1023
  have handed : last.handed = 0 := by rw [shed]
  have risk : last.risk = 2 := by rw [shed]
  refine ⟨by rw [shed], by decide, risk, by omega, ?_⟩
  intro agrees
  unfold Ledger.Agrees at agrees
  omega

end FinamShedding
