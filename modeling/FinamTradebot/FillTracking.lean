import FinamTradebot.OrderClient
import FinamTradebot.StrategyRunner
import Mathlib.Algebra.BigOperators.Group.Finset.Piecewise

/-!
Reports of the order stream, each handled to its end by `upsert` and then applied by
`on_order_update`. `upsert` turns the cumulative quantity of a report into the
increment over the record; `on_order_update` applies the increment only under the
status Filled.
-/
namespace FinamFills
open FinamInterfaces FinamConfluence FinamOrderClient FinamRunner Runs

/-- A report with the time it is handled at. Every order keeps its side. -/
structure SidedReport (side : ℤ → OrderSide) where
  report : OrderReport
  now : ℤ
  keeps : report.orderSide = side report.localId

structure Tracker where
  client : OrderClient
  strategy : ConfluenceStrategy
  handled : List OrderReport

section Exposure

def lastExecuted (reports : List OrderReport) (localId : ℤ) : ℤ :=
  ((reports.filter (fun o => decide (o.localId = localId))).getLast?.map
    OrderReport.executed).getD 0

def orderIds (reports : List OrderReport) : Finset ℤ :=
  (reports.map OrderReport.localId).toFinset

/-- The position the exchange reports: over all orders, the side's sign times the last
    executed quantity. -/
def exposure (side : ℤ → OrderSide) (reports : List OrderReport) : ℤ :=
  ∑ localId ∈ orderIds reports, (side localId).signed (lastExecuted reports localId)

def increment (handled : List OrderReport) (o : OrderReport) : ℤ :=
  o.executed - lastExecuted handled o.localId

variable {side : ℤ → OrderSide} {handled : List OrderReport} {o : OrderReport}

theorem last_executed_append (localId : ℤ) : lastExecuted (handled ++ [o]) localId =
    if localId = o.localId then o.executed else lastExecuted handled localId := by
  by_cases own : localId = o.localId
  · simp [lastExecuted, own]
  · simp [lastExecuted, own, Ne.symm own]

theorem last_executed_unknown {localId : ℤ} (unknown : localId ∉ orderIds handled) :
    lastExecuted handled localId = 0 := by
  have none_reported : handled.filter (fun o => decide (o.localId = localId)) = [] := by
    simp only [List.filter_eq_nil_iff, decide_eq_true_eq]
    intro o member same
    exact unknown (List.mem_toFinset.mpr (List.mem_map.mpr ⟨o, member, same⟩))
  simp [lastExecuted, none_reported]

theorem order_ids_append : orderIds (handled ++ [o]) = insert o.localId (orderIds handled) := by
  ext localId
  simp [orderIds]

theorem exposure_append : exposure side (handled ++ [o]) =
    exposure side handled + (side o.localId).signed (increment handled o) := by
  let amount := fun localId => (side localId).signed (lastExecuted handled localId)
  have updated : (fun localId => (side localId).signed (lastExecuted (handled ++ [o]) localId)) =
      Function.update amount o.localId ((side o.localId).signed o.executed) := by
    funext localId
    by_cases own : localId = o.localId
    · subst own
      simp [last_executed_append]
    · simp [last_executed_append, own, amount]
  have known : exposure side handled = ∑ localId ∈ insert o.localId (orderIds handled),
      amount localId := by
    refine (Finset.sum_insert_of_eq_zero_if_notMem fun unknown => ?_).symm
    simp [last_executed_unknown unknown]
  have member := Finset.mem_insert_self o.localId (orderIds handled)
  rw [known, exposure, order_ids_append, updated, Finset.sum_update_of_mem member,
    ← Finset.add_sum_erase _ _ member, Finset.sdiff_singleton_eq_erase, increment, signed_sub]
  simp only [amount]
  omega

end Exposure

section Tracking
variable {side : ℤ → OrderSide} {t : Tracker} {a : SidedReport side}

def Tracker.step (t : Tracker) (a : SidedReport side) : Tracker :=
  let handledBy := t.client.onReport a.report a.now
  { client := handledBy.1
    strategy := t.strategy.onOrderUpdate handledBy.2
    handled := t.handled ++ [a.report] }

def Recorded (t : Tracker) : Prop :=
  ∀ localId, t.client.prevFilled localId = lastExecuted t.handled localId

def Exact (side : ℤ → OrderSide) (t : Tracker) : Prop :=
  t.strategy.position = exposure side t.handled

def FilledOnly (t : Tracker) (a : SidedReport side) : Prop :=
  mapStatus a.report.status ≠ .filled → increment t.handled a.report = 0

/-- The signed quantity of reports that the strategy does not apply. -/
def unapplied (side : ℤ → OrderSide) : List OrderReport → List OrderReport → ℤ
  | _, [] => 0
  | handled, o :: rest =>
    (if mapStatus o.status = .filled then 0 else (side o.localId).signed (increment handled o)) +
      unapplied side (handled ++ [o]) rest

theorem recorded_step (recorded : Recorded t) : Recorded (t.step a) := by
  intro localId
  simp only [Tracker.step, OrderClient.onReport, OrderClient.upsert, store_prev_filled,
    last_executed_append, recorded localId]
  rfl

theorem position_step (recorded : Recorded t) : (t.step a).strategy.position =
    t.strategy.position + if mapStatus a.report.status = .filled then
      (side a.report.localId).signed (increment t.handled a.report) else 0 := by
  obtain ⟨entry, eq, -⟩ := update_frame t.strategy (t.client.onReport a.report a.now).2
  have applied : (t.step a).strategy = _ := eq
  rw [applied]
  simp only [OrderClient.onReport, OrderClient.upsert, OrderClient.orderUpdate,
    OrderClient.reportState, a.keeps, recorded a.report.localId, increment]

theorem exact_step_iff (recorded : Recorded t) (exact : Exact side t) :
    Exact side (t.step a) ↔ FilledOnly t a := by
  have after : Exact side (t.step a) ↔ (t.step a).strategy.position =
      exposure side (t.handled ++ [a.report]) := Iff.rfl
  rw [after, position_step recorded, exposure_append, exact, FilledOnly]
  by_cases filled : mapStatus a.report.status = .filled
  · simp [filled]
  · simp only [filled, ↓reduceIte, add_right_inj, ne_eq, not_false_eq_true, forall_const]
    rw [eq_comm, signed_eq_zero_iff]

theorem position_run (reports : List (SidedReport side)) (recorded : Recorded t) :
    (run Tracker.step t reports).strategy.position +
      unapplied side t.handled (reports.map SidedReport.report) +
        exposure side t.handled =
      t.strategy.position + exposure side (t.handled ++ reports.map SidedReport.report) := by
  induction reports generalizing t with
  | nil => simp [run, unapplied]
  | cons a rest ih =>
    have later := ih (recorded_step (a := a) recorded)
    have handled : (t.step a).handled = t.handled ++ [a.report] := rfl
    rw [position_step recorded, handled, exposure_append, List.append_assoc,
      List.singleton_append] at later
    simp only [run, List.map_cons, unapplied]
    split_ifs at later ⊢ <;> omega

/-- Reports of any orders, handled one after the other from records without fills and
    a flat strategy. The position equals the exposure at the end exactly if what was
    reported under other statuses than Filled nets to zero, and throughout exactly if
    every such report adds nothing. -/
theorem position_exact_iff (side : ℤ → OrderSide) (c : OrderClient) (s : ConfluenceStrategy)
    (fresh : ∀ localId, c.prevFilled localId = 0) (flat : s.position = 0)
    (reports : List (SidedReport side)) :
    let t : Tracker := ⟨c, s, []⟩
    let all := reports.map SidedReport.report
    ((run Tracker.step t reports).strategy.position = exposure side all ↔
      unapplied side [] all = 0) ∧
    (Visits Tracker.step (Exact side) t reports ↔ Along Tracker.step FilledOnly t reports) := by
  intro t all
  have recorded : Recorded t := fresh
  have exact : Exact side t := flat
  constructor
  · have total : (run Tracker.step t reports).strategy.position + unapplied side [] all +
        exposure side [] = s.position + exposure side all := position_run reports recorded
    have start : exposure side [] = 0 := rfl
    omega
  · exact visits_iff_along (I := Recorded)
      (fun t a recorded exact => exact_step_iff recorded exact)
      (fun t a recorded _ _ => recorded_step recorded) recorded exact

def makeReport (status : ProtoOrderStatus) (executed : String) : SidedReport (fun _ => .buy) :=
  ⟨⟨"770", "1", .buy, .market, status, "3", executed⟩, 0, rfl⟩

theorem single_fill_tracked :
    let t : Tracker := ⟨⟨"ACC001", 2, fun _ => none⟩, .init flatLibm makeCfg, []⟩
    let reports := [makeReport .new "0", makeReport .filled "3"]
    (∀ localId, t.client.prevFilled localId = 0) ∧ t.strategy.position = 0 ∧
      (run Tracker.step t reports).strategy.position =
        exposure (fun _ => .buy) (reports.map SidedReport.report) :=
  ⟨fun _ => rfl, rfl,
    (position_exact_iff _ _ _ (fun _ => rfl) rfl
      [makeReport .new "0", makeReport .filled "3"]).1.mpr (by decide +kernel)⟩

/-- Three contracts bought in two reports: the first is lost. -/
theorem partial_fill_lost :
    let t : Tracker := ⟨⟨"ACC001", 2, fun _ => none⟩, .init flatLibm makeCfg, []⟩
    let reports := [makeReport .partiallyFilled "1", makeReport .filled "3"]
    (run Tracker.step t reports).strategy.position = 2 ∧
      exposure (fun _ => .buy) (reports.map SidedReport.report) = 3 := by
  decide +kernel

end Tracking

end FinamFills
