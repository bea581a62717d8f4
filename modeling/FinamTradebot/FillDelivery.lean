import FinamTradebot.OrderFlow
import FinamTradebot.StrategyRunner

/-!
What the updates of the order client say and where they go, over every interleaving of
its threads. The first part is about one order: its record and the quantities delivered
for it. The second part is about the broadcast of an update to the runners, which tell
their own orders by the symbol.
-/
namespace FinamDelivery
open FinamInterfaces FinamOrderClient FinamOrderFlow DeltaCell Runs
open FinamRunner hiding Action

section Commuting
variable {f : OrderFlow} {localId : ℤ} {a : Action}

def Quiet (localId : ℤ) (f : OrderFlow) : Prop :=
  f.streamOn localId = none ∧ f.submitOn localId = none

/-- Once the threads have finished with an order, its record is that of the last report
    and the deliveries add up to its executed quantity; none is negative. -/
structure Settled (localId : ℤ) (f : OrderFlow) : Prop where
  record : Quiet localId f → ∀ st, f.lastTaken localId = some st →
    ∃ held, f.client.orders localId = some held ∧ held.status = st.status ∧
      held.qtyFilled = st.qtyFilled
  total : Quiet localId f →
    (f.fills localId).sum = ((f.lastTaken localId).map OrderState.qtyFilled).getD 0
  increasing : ∀ upd, (localId, upd) ∈ f.delivered → 0 ≤ upd.qtyFilled

def TerminalStays (localId : ℤ) (f : OrderFlow) (a : Action) : Prop :=
  ∀ st, f.client.orders localId = some st → st.status.Terminal →
    ∃ next, (f.step a).client.orders localId = some next ∧ next.status.Terminal

def Orderly (localId : ℤ) (f : OrderFlow) (a : Action) : Prop :=
  (f.view localId).Orderly OrderStatus.Terminal (f.actOn localId a)

instance (localId : ℤ) (f : OrderFlow) (a : Action) : Decidable (Orderly localId f a) :=
  inferInstanceAs (Decidable ((f.view localId).Orderly OrderStatus.Terminal (f.actOn localId a)))

theorem view_ended : (f.view localId).Ended OrderStatus.Terminal ↔
    ∃ st, f.client.orders localId = some st ∧ st.status.Terminal := by
  simp only [Cell.Ended, OrderFlow.view, Option.map_eq_some_iff]
  constructor
  · rintro ⟨r, ⟨st, held, rfl⟩, ended⟩
    exact ⟨st, held, ended⟩
  · rintro ⟨st, held, ended⟩
    exact ⟨summary st, ⟨st, held, rfl⟩, ended⟩

theorem settled_of_inv (inv : (f.view localId).Inv OrderStatus.Terminal) : Settled localId f := by
  have idle : Quiet localId f → (f.view localId).Current ∧
      (f.view localId).deltas.sum = quantity (f.view localId).last := by
    rintro ⟨stream, -⟩
    have feed := inv.feed
    have stage : (f.view localId).feed = none := by simp [OrderFlow.view, stream]
    simpa only [Cell.FeedInv, stage] using feed
  constructor
  · intro quiet st last
    have held : (f.client.orders localId).map summary = some (summary st) :=
      (idle quiet).1.1 (summary st) (by simp [OrderFlow.view, last])
    obtain ⟨old, found, same⟩ := Option.map_eq_some_iff.mp held
    simp only [summary, Report.mk.injEq] at same
    exact ⟨old, found, same⟩
  · intro quiet
    have total : (f.fills localId).sum = quantity ((f.lastTaken localId).map summary) :=
      (idle quiet).2
    rw [total]
    cases f.lastTaken localId <;> rfl
  · intro upd member
    refine inv.increasing upd.qtyFilled (List.mem_map.mpr ⟨(localId, upd), ?_, rfl⟩)
    exact List.mem_filter.mpr ⟨member, by simp⟩

theorem view_inv_step (keyed : Keyed f) (inv : (f.view localId).Inv OrderStatus.Terminal)
    (orderly : Orderly localId f a) : ((f.step a).view localId).Inv OrderStatus.Terminal := by
  rw [view_step keyed]
  exact step_inv inv orderly

theorem terminal_step (keyed : Keyed f) (inv : (f.view localId).Inv OrderStatus.Terminal)
    (orderly : Orderly localId f a) : TerminalStays localId f a := by
  intro st held ended
  rw [← view_ended, view_step keyed]
  exact step_ended inv orderly (view_ended.mpr ⟨st, held, ended⟩)

/-- For every order and every interleaving in which each step is orderly, the order is
    settled in every state and its record never leaves a terminal status. -/
theorem submit_and_stream_commute (accountId : String) (localId : ℤ) (acts : List Action)
    (orderly : Along OrderFlow.step (Orderly localId) (.init accountId) acts) :
    Along OrderFlow.step (TerminalStays localId) (.init accountId) acts ∧
      Visits OrderFlow.step (Settled localId) (.init accountId) acts := by
  have start : ((OrderFlow.init accountId).view localId).Inv OrderStatus.Terminal := inv_init
  refine good_run_of_along
    (I := fun f => Keyed f ∧ (f.view localId).Inv OrderStatus.Terminal) ?_ ?_
    ⟨keyed_init accountId, start⟩ (settled_of_inv start) orderly
  · rintro f a ⟨keyed, inv⟩ - meets
    exact ⟨terminal_step keyed inv meets, settled_of_inv (view_inv_step keyed inv meets)⟩
  · rintro f a ⟨keyed, inv⟩ - meets
    exact ⟨keyed_step a keyed, view_inv_step keyed inv meets⟩

end Commuting

section Fixture

def makeRequest : OrderRequest :=
  { clientId := "ACC001", symbol := makeCfg.symbol, side := .buy, quantity := 2 }

def streamReport (status : ProtoOrderStatus) (executed : String) : Action :=
  .report ⟨"770", "1", .buy, .market, status, "2", executed⟩ 0

def placedReply : Result PlaceReply := .ok ⟨"770", .new⟩

def streamed (status : ProtoOrderStatus) (executed : String) : List Action :=
  [streamReport status executed, .streamStep, .streamStep, .streamStep]

def replied : List Action :=
  [.reply 1 placedReply 0, .submitStep 1, .submitStep 1, .submitStep 1]

end Fixture

def orderlyRun : List Action :=
  [.submit makeRequest, .reply 1 placedReply 0, .submitStep 1] ++ streamed .new "0" ++
    [.submitStep 1, .submitStep 1] ++ streamed .partiallyFilled "1" ++ streamed .filled "2"

theorem orderly_run_commutes :
    Along OrderFlow.step (Orderly 1) (.init "ACC001") orderlyRun ∧
      Visits OrderFlow.step (Settled 1) (.init "ACC001") orderlyRun :=
  have orderly : Along OrderFlow.step (Orderly 1) (.init "ACC001") orderlyRun := by decide +kernel
  ⟨orderly, (submit_and_stream_commute "ACC001" 1 orderlyRun orderly).2⟩

/-- The stream reports the fill before the submit call stores its record. -/
def fillFirst : List Action :=
  [.submit makeRequest] ++ streamed .filled "2" ++ replied

theorem fill_before_reply_undone :
    let last := run OrderFlow.step (.init "ACC001") fillFirst
    last.fills 1 = [2, -2] ∧ (last.client.orders 1).map OrderState.status = some .pending ∧
      ¬ (Along OrderFlow.step (TerminalStays 1) (.init "ACC001") fillFirst ∧
        Visits OrderFlow.step (Settled 1) (.init "ACC001") fillFirst) := by
  refine ⟨by decide +kernel, by decide +kernel, ?_⟩
  rintro ⟨-, visits⟩
  have quiet : Quiet 1 (run OrderFlow.step (.init "ACC001") fillFirst) :=
    ⟨by decide +kernel, by decide +kernel⟩
  have total := (visits_last visits).total quiet
  revert total
  decide +kernel

section Routing
variable {upd : OrderUpdate} {f : OrderFlow} {a : Action}

/-- The broadcast callback of main: how many runners pass the update to
    `RiskManager::on_fill`, and how many queues it enters. -/
def fillCalls (hasRisk : Bool) (runners : List StrategyRunner) (upd : OrderUpdate) : ℕ :=
  runners.countP (fun r => (makeOrderCallback hasRisk r upd).onFill)

def queuePushes (hasRisk : Bool) (runners : List StrategyRunner) (upd : OrderUpdate) : ℕ :=
  runners.countP (fun r => (makeOrderCallback hasRisk r upd).pushed)

def RoutedOnce (upd : OrderUpdate) : Prop :=
  ∀ (hasRisk : Bool) (runners : List StrategyRunner),
    (runners.map StrategyRunner.activeSymbol).Nodup →
      fillCalls hasRisk runners upd ≤ 1 ∧ queuePushes hasRisk runners upd ≤ 1

theorem callback_takes {hasRisk : Bool} {r : StrategyRunner}
    (takes : (makeOrderCallback hasRisk r upd).onFill = true ∨
      (makeOrderCallback hasRisk r upd).pushed = true) : r.passesFilter upd = true := by
  unfold makeOrderCallback at takes
  split at takes
  · assumption
  · simp at takes

theorem filter_symbol {r : StrategyRunner} (named : upd.symbol.securityCode ≠ "")
    (passes : r.passesFilter upd = true) : r.activeSymbol = upd.symbol := by
  by_contra other
  simp [StrategyRunner.passesFilter, named, Ne.symm other] at passes

theorem count_owner_le {takes : StrategyRunner → Bool} {symbol : Symbol}
    (owner : ∀ r, takes r = true → r.activeSymbol = symbol) {runners : List StrategyRunner}
    (distinct : (runners.map StrategyRunner.activeSymbol).Nodup) : runners.countP takes ≤ 1 := by
  have owners : (runners.filter takes).map StrategyRunner.activeSymbol =
      List.replicate (runners.countP takes) symbol := by
    rw [List.eq_replicate_iff, List.length_map, List.countP_eq_length_filter]
    refine ⟨rfl, fun s member => ?_⟩
    obtain ⟨r, taker, rfl⟩ := List.mem_map.mp member
    exact owner r (List.mem_filter.mp taker).2
  have once := distinct.sublist
    ((List.filter_sublist (p := takes)).map StrategyRunner.activeSymbol)
  rwa [owners, List.nodup_replicate] at once

theorem routed_once_of_named (named : upd.symbol.securityCode ≠ "") : RoutedOnce upd := by
  intro hasRisk runners distinct
  constructor
  · exact count_owner_le (fun r fills => filter_symbol named (callback_takes (.inl fills))) distinct
  · exact count_owner_le (fun r pushed => filter_symbol named (callback_takes (.inr pushed)))
      distinct

def Named (upd : OrderUpdate) : Prop :=
  0 < upd.qtyFilled → upd.symbol.securityCode ≠ ""

/-- The condition on a read of `upsert`: the state it was handed has the order's symbol,
    or reports no more than the record. -/
def NamesFill (f : OrderFlow) (a : Action) : Prop :=
  match f.reading a with
  | some st => st.symbol.securityCode ≠ "" ∨ st.qtyFilled ≤ f.client.prevFilled st.localId
  | none => True

instance (f : OrderFlow) (a : Action) : Decidable (NamesFill f a) :=
  match reads : f.reading a with
  | some st => decidable_of_iff
      (st.symbol.securityCode ≠ "" ∨ st.qtyFilled ≤ f.client.prevFilled st.localId)
      (by simp only [NamesFill, reads])
  | none => .isTrue (by simp only [NamesFill, reads])

def FillsRoutedOnce (f : OrderFlow) : Prop :=
  ∀ localId upd, (localId, upd) ∈ f.delivered → 0 < upd.qtyFilled → RoutedOnce upd

theorem named_step (carries : Carries (fun _ => True) (fun _ => True) Named f)
    (names : NamesFill f a) : Carries (fun _ => True) (fun _ => True) Named (f.step a) := by
  refine carries_step ⟨fun _ _ _ _ _ => trivial, fun _ _ _ => trivial⟩ carries
    (fun _ _ => trivial) ?_
  intro st _ reads more
  simp only [NamesFill, reads] at names
  simp only [OrderClient.orderUpdate] at more ⊢
  rcases names with named | known
  · exact named
  · omega

/-- For every interleaving of submit calls and reports: if each read of `upsert` that
    finds a fill has the order's symbol, every fill delivered has one owner at most. -/
theorem fills_routed_once (accountId : String) (acts : List Action)
    (names : Along OrderFlow.step NamesFill (.init accountId) acts) :
    Visits OrderFlow.step FillsRoutedOnce (.init accountId) acts := by
  have carried := visits_of_along (fun f a => named_step) (carries_init accountId) names
  refine visits_mono (fun f carries => ?_) carried
  intro localId upd member more
  exact routed_once_of_named (carries.delivered localId upd member more)

theorem orderly_run_routed_once :
    Along OrderFlow.step NamesFill (.init "ACC001") orderlyRun ∧
      Visits OrderFlow.step FillsRoutedOnce (.init "ACC001") orderlyRun :=
  have names : Along OrderFlow.step NamesFill (.init "ACC001") orderlyRun := by decide +kernel
  ⟨names, fills_routed_once "ACC001" orderlyRun names⟩

/-- The exchange accepts and fills the order, but the `PlaceOrder` call fails. -/
def replyLost : List Action :=
  [.submit makeRequest, .reply 1 (.error ⟨.rpcError, "Deadline Exceeded"⟩) 0] ++
    streamed .filled "2"

def twoRunners : List StrategyRunner :=
  [⟨"SiM6", "FORTS"⟩, ⟨"RIM6", "FORTS"⟩].map fun symbol =>
    StrategyRunner.init flatLibm ⟨{ makeCfg with symbol := symbol }, "", 20, 5⟩ "ACC001" (.ok [])

def strayFill : OrderUpdate :=
  { transactionId := 1, symbol := ⟨"", ""⟩, clientId := "ACC001", side := .buy,
    status := .filled, type := .market, price := 0, qtyTotal := 2, qtyFilled := 2, ts := 0 }

theorem lost_reply_fill_taken_twice :
    (twoRunners.map StrategyRunner.activeSymbol).Nodup ∧ fillCalls true twoRunners strayFill = 2 ∧
      queuePushes true twoRunners strayFill = 2 ∧
      ¬ Visits OrderFlow.step FillsRoutedOnce (.init "ACC001") replyLost := by
  have distinct : (twoRunners.map StrategyRunner.activeSymbol).Nodup := by decide +kernel
  have twice : fillCalls true twoRunners strayFill = 2 := by decide +kernel
  refine ⟨distinct, twice, by decide +kernel, fun visits => ?_⟩
  have member : (1, strayFill) ∈ (run OrderFlow.step (.init "ACC001") replyLost).delivered := by
    decide +kernel
  have routed := visits_last visits 1 strayFill member (by decide) true twoRunners distinct
  omega

end Routing

end FinamDelivery
