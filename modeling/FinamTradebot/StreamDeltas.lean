import FinamTradebot.OrderClient
import FinamTradebot.Runs
import Mathlib.Algebra.BigOperators.Group.List.Basic
import Mathlib.Data.List.Induction

/-!
The order stream on its own. A report carries the executed quantity of its order so far,
and `upsert` delivers the difference to the record. Batches and reconnects leave no trace
in the client, so a stream is the list of its reports, each with the clock at which it is
processed.
-/
namespace FinamStreamDeltas
open FinamInterfaces FinamOrderClient Runs

/-- One report of the stream: the client after it, and the update under its local id. -/
def streamStep (c : OrderClient) (o : OrderReport × ℤ) : OrderClient × (ℤ × OrderUpdate) :=
  ((c.onReport o.1 o.2).1, (o.1.localId, (c.onReport o.1 o.2).2))

def afterStream (c : OrderClient) (reports : List (OrderReport × ℤ)) : OrderClient :=
  run (fun c o => (streamStep c o).1) c reports

/-- The quantities of the updates delivered for a local id. -/
def deltasFor (localId : ℤ) (delivered : List (ℤ × OrderUpdate)) : List ℤ :=
  (delivered.filter fun d => decide (d.1 = localId)).map fun d => d.2.qtyFilled

def latestReport (localId : ℤ) (reports : List (OrderReport × ℤ)) : Option OrderReport :=
  ((reports.map Prod.fst).filter fun o => decide (o.localId = localId)).getLast?

/-- The quantities of an `int32_t`. -/
def IsQuantity (n : ℤ) : Prop := 0 ≤ n ∧ n < 2 ^ 31

instance (n : ℤ) : Decidable (IsQuantity n) := inferInstanceAs (Decidable (_ ∧ _))

/-- The two fields of a record that a replay must not move. -/
def filledAndStatus (c : OrderClient) (localId : ℤ) : Option (ℤ × OrderStatus) :=
  (c.orders localId).map fun st => (st.qtyFilled, st.status)

section Step
variable {c : OrderClient} {reports : List (OrderReport × ℤ)} {localId : ℤ}

theorem stream_delta (c : OrderClient) (o : OrderReport × ℤ) :
    (streamStep c o).2.2.qtyFilled = o.1.executed - c.prevFilled o.1.localId := rfl

theorem stream_prev_filled (c : OrderClient) (o : OrderReport × ℤ) (localId : ℤ) :
    (streamStep c o).1.prevFilled localId =
      if localId = o.1.localId then o.1.executed else c.prevFilled localId :=
  store_prev_filled c _ localId

/-- The deltas add up to what the record has moved. -/
theorem deltas_telescope (localId : ℤ) :
    (deltasFor localId (outputs streamStep c reports)).sum =
      (afterStream c reports).prevFilled localId - c.prevFilled localId := by
  induction reports generalizing c with
  | nil => simp [deltasFor, outputs, afterStream, run]
  | cons o rest ih =>
    have later := ih (c := (streamStep c o).1)
    have moved := stream_prev_filled c o localId
    unfold deltasFor afterStream at *
    rw [outputs, run, List.filter_cons]
    by_cases own : o.1.localId = localId
    · have here : decide ((streamStep c o).2.1 = localId) = true := decide_eq_true own
      rw [if_pos own.symm] at moved
      rw [if_pos here, List.map_cons, List.sum_cons, later, moved, stream_delta, own]
      omega
    · have elsewhere : ¬decide ((streamStep c o).2.1 = localId) = true :=
        fun found => own (of_decide_eq_true found)
      rw [if_neg (Ne.symm own)] at moved
      rw [if_neg elsewhere, later, moved]

theorem latest_report_snoc (o : OrderReport × ℤ) : latestReport localId (reports ++ [o]) =
    if o.1.localId = localId then some o.1 else latestReport localId reports := by
  unfold latestReport
  by_cases own : o.1.localId = localId
  · simp [List.filter_append, own]
  · simp [List.filter_append, own]

theorem after_stream_snoc (o : OrderReport × ℤ) :
    afterStream c (reports ++ [o]) = ((afterStream c reports).onReport o.1 o.2).1 := by
  unfold afterStream
  rw [run_append]
  rfl

theorem on_report_record (c : OrderClient) (o : OrderReport) (now localId : ℤ) :
    filledAndStatus (c.onReport o now).1 localId =
      if localId = o.localId then some (o.executed, mapStatus o.status)
      else filledAndStatus c localId := by
  unfold filledAndStatus
  have stored : (c.store (c.reportState o now)).orders localId =
      if localId = o.localId then some (c.reportState o now) else c.orders localId :=
    store_orders c (c.reportState o now) localId
  rw [OrderClient.onReport, OrderClient.upsert, stored]
  by_cases own : localId = o.localId
  · rw [if_pos own, if_pos own]
    rfl
  · rw [if_neg own, if_neg own]

/-- The record of an order is that of its latest report. -/
theorem record_latest (c : OrderClient) (reports : List (OrderReport × ℤ)) (localId : ℤ) :
    filledAndStatus (afterStream c reports) localId =
      ((latestReport localId reports).map fun o => (o.executed, mapStatus o.status)).or
        (filledAndStatus c localId) := by
  induction reports using List.reverseRecOn with
  | nil => rfl
  | append_singleton reports o ih =>
    rw [after_stream_snoc, on_report_record, latest_report_snoc, ih]
    by_cases own : o.1.localId = localId
    · rw [if_pos own.symm, if_pos own]
      rfl
    · rw [if_neg (Ne.symm own), if_neg own]

theorem prev_filled_record (c : OrderClient) (localId : ℤ) :
    c.prevFilled localId = ((filledAndStatus c localId).map Prod.fst).getD 0 := by
  unfold OrderClient.prevFilled filledAndStatus
  cases c.orders localId <;> rfl

theorem latest_report_id {o : OrderReport} (latest : latestReport localId reports = some o) :
    o.localId = localId := by
  have member := List.mem_of_getLast? latest
  exact of_decide_eq_true (List.mem_filter.mp member).2


theorem deltas_narrow (held : ∀ localId, IsQuantity (c.prevFilled localId))
    (executed : ∀ o ∈ reports, IsQuantity o.1.executed) :
    ∀ d ∈ outputs streamStep c reports, -2 ^ 31 < d.2.qtyFilled ∧ d.2.qtyFilled < 2 ^ 31 := by
  induction reports generalizing c with
  | nil => simp [outputs]
  | cons o rest ih =>
    have now := executed o List.mem_cons_self
    intro d member
    rcases List.mem_cons.mp member with rfl | later
    · have before := held o.1.localId
      rw [stream_delta]
      unfold IsQuantity at now before
      omega
    · refine ih ?_ (fun other behind => executed other (List.mem_cons_of_mem o behind)) d later
      intro localId
      rw [stream_prev_filled]
      split_ifs
      · exact now
      · exact held localId

end Step

/-- Over any stream the deltas of an order add up to its latest executed quantity, and
    its latest report once more is an update of nothing. -/
theorem stream_deltas_telescope (c : OrderClient) (fresh : ∀ localId, c.prevFilled localId = 0)
    (batches : List (List (OrderReport × ℤ)))
    (executed : ∀ o ∈ batches.flatten, IsQuantity o.1.executed) (localId : ℤ) :
    let reports := batches.flatten
    let final := afterStream c reports
    (deltasFor localId (outputs streamStep c reports)).sum =
      ((latestReport localId reports).map OrderReport.executed).getD 0 ∧
    (∀ d ∈ outputs streamStep c reports, -2 ^ 31 < d.2.qtyFilled ∧ d.2.qtyFilled < 2 ^ 31) ∧
    ∀ o now, latestReport localId reports = some o →
      (final.onReport o now).2.qtyFilled = 0 ∧
        filledAndStatus (final.onReport o now).1 localId = filledAndStatus final localId := by
  intro reports final
  have record := record_latest c reports localId
  have filled : final.prevFilled localId =
      ((latestReport localId reports).map OrderReport.executed).getD 0 := by
    rw [prev_filled_record, record]
    cases latestReport localId reports with
    | none => exact (prev_filled_record c localId).symm.trans (fresh localId)
    | some o => rfl
  refine ⟨?_, ?_, ?_⟩
  · rw [deltas_telescope, fresh, sub_zero]
    exact filled
  · exact deltas_narrow (fun localId => by rw [fresh]; decide) executed
  · intro o now latest
    have own := latest_report_id latest
    rw [latest] at filled record
    constructor
    · have delta : (final.onReport o now).2.qtyFilled = o.executed - final.prevFilled o.localId := rfl
      rw [delta, own, filled]
      exact sub_self _
    · rw [on_report_record, if_pos own.symm]
      exact record.symm

def makeReport (localId executed : String) (status : ProtoOrderStatus) : OrderReport :=
  ⟨"ex" ++ localId, localId, .buy, .limit, status, "5", executed⟩

/-- Two orders interleaved, and a snapshot of the first again after a reconnect. -/
def reconnectedStream : List (List (OrderReport × ℤ)) :=
  [[(makeReport "1" "2" .partiallyFilled, 0), (makeReport "2" "1" .partiallyFilled, 1)],
    [(makeReport "1" "5" .filled, 2)], [(makeReport "1" "5" .filled, 3), (makeReport "2" "1" .canceled, 4)]]

theorem reconnected_stream_telescopes :
    (deltasFor 1 (outputs streamStep { accountId := "A" } reconnectedStream.flatten)).sum = 5 := by
  have telescoped := stream_deltas_telescope { accountId := "A" } (fun _ => rfl) reconnectedStream
    (by decide +kernel) 1
  have latest : ((latestReport 1 reconnectedStream.flatten).map OrderReport.executed).getD 0 = 5 := by
    decide +kernel
  exact telescoped.1.trans latest

end FinamStreamDeltas
