import FinamTradebot.OrderClient
import FinamTradebot.DeltaCell
import FinamTradebot.Runs

/-!
The threads of `OrderClient`. Every `submit` call waits for its `PlaceOrder` reply and
then runs `upsert`; the stream thread looks up the symbol of a report and runs
`upsert`. The read of `upsert`, its write and the callback are separate steps, and the
steps of different threads interleave in any order. A step of a thread that is not
ready changes nothing. The logs of reports and deliveries are kept for the statements.
-/
namespace FinamOrderFlow
open FinamInterfaces FinamOrderClient DeltaCell Runs

/-- A call of `upsert` before its read, before its write and before the callback. -/
inductive UpsertPc where
  | read (st : OrderState)
  | write (st : OrderState) (upd : OrderUpdate)
  | callback (localId : ℤ) (upd : OrderUpdate)
  deriving DecidableEq

def UpsertPc.localId : UpsertPc → ℤ
  | .read st => st.localId
  | .write st _ => st.localId
  | .callback localId _ => localId

inductive SubmitPc where
  | placing (req : OrderRequest)
  | upserting (pc : UpsertPc)
  deriving DecidableEq

structure OrderFlow where
  client : OrderClient
  submits : ℤ → Option SubmitPc := fun _ => none
  stream : Option UpsertPc := none
  placed : List PlaceOrder := []
  taken : List OrderState := []
  delivered : List (ℤ × OrderUpdate) := []

def OrderFlow.init (accountId : String) : OrderFlow := { client := { accountId := accountId } }

inductive Action where
  | submit (req : OrderRequest)
  | reply (localId : ℤ) (result : Result PlaceReply) (now : ℤ)
  | submitStep (localId : ℤ)
  | report (o : OrderReport) (now : ℤ)
  | streamStep

def OrderFlow.advance (f : OrderFlow) : UpsertPc → OrderFlow × Option UpsertPc
  | .read st =>
    (f, some (.write st (f.client.orderUpdate st (f.client.prevFilled st.localId))))
  | .write st upd => ({ f with client := f.client.store st }, some (.callback st.localId upd))
  | .callback localId upd => ({ f with delivered := f.delivered ++ [(localId, upd)] }, none)

def OrderFlow.submit (f : OrderFlow) (req : OrderRequest) : OrderFlow :=
  match validate req with
  | some _ => f
  | none =>
    let localId := f.client.idCounter
    { f with
      client := { f.client with idCounter := localId + 1 }
      submits := Function.update f.submits localId (some (.placing req))
      placed := f.placed ++ [f.client.placeOrder localId req] }

def OrderFlow.setSubmit (f : OrderFlow) (localId : ℤ) (pc : Option SubmitPc) : OrderFlow :=
  { f with submits := Function.update f.submits localId pc }

/-- `PlaceOrder` returns: an error ends the call without a record. -/
def OrderFlow.reply (f : OrderFlow) (localId : ℤ) (result : Result PlaceReply) (now : ℤ) :
    OrderFlow :=
  match f.submits localId, result with
  | some (.placing _), .error _ => f.setSubmit localId none
  | some (.placing req), .ok placed =>
    f.setSubmit localId (some (.upserting (.read (submitState localId req placed now))))
  | _, _ => f

def OrderFlow.submitStep (f : OrderFlow) (localId : ℤ) : OrderFlow :=
  match f.submits localId with
  | some (.upserting pc) =>
    (f.advance pc).1.setSubmit localId ((f.advance pc).2.map .upserting)
  | _ => f

def OrderFlow.report (f : OrderFlow) (o : OrderReport) (now : ℤ) : OrderFlow :=
  match f.stream with
  | none =>
    let st := f.client.reportState o now
    { f with stream := some (.read st), taken := f.taken ++ [st] }
  | some _ => f

def OrderFlow.streamStep (f : OrderFlow) : OrderFlow :=
  match f.stream with
  | some pc => { (f.advance pc).1 with stream := (f.advance pc).2 }
  | none => f

def OrderFlow.step (f : OrderFlow) : Action → OrderFlow
  | .submit req => f.submit req
  | .reply localId result now => f.reply localId result now
  | .submitStep localId => f.submitStep localId
  | .report o now => f.report o now
  | .streamStep => f.streamStep

section Keys
variable {f : OrderFlow}

/-- A submit call works on the order it has made, and ids are not used twice. -/
structure Keyed (f : OrderFlow) : Prop where
  own : ∀ localId pc, f.submits localId = some (.upserting pc) → pc.localId = localId
  fresh : ∀ localId, f.client.idCounter ≤ localId → f.submits localId = none

theorem advance_submits (pc : UpsertPc) : (f.advance pc).1.submits = f.submits := by
  cases pc <;> rfl

theorem advance_counter (pc : UpsertPc) :
    (f.advance pc).1.client.idCounter = f.client.idCounter := by
  cases pc <;> rfl

theorem advance_local_id {pc next : UpsertPc} (left : (f.advance pc).2 = some next) :
    next.localId = pc.localId := by
  cases pc with
  | read st => cases left; rfl
  | write st upd => cases left; rfl
  | callback localId upd => cases left

theorem set_submit_keyed {localId : ℤ} {pc : Option SubmitPc} (keyed : Keyed f)
    (known : f.submits localId ≠ none)
    (own : ∀ next, pc = some (.upserting next) → next.localId = localId) :
    Keyed (f.setSubmit localId pc) := by
  constructor
  · intro other next holds
    by_cases same : other = localId
    · subst same
      exact own next (by simpa [OrderFlow.setSubmit] using holds)
    · exact keyed.own other next (by simpa [OrderFlow.setSubmit, same] using holds)
  · intro other later
    have different : other ≠ localId := by
      rintro rfl
      exact known (keyed.fresh other later)
    simpa [OrderFlow.setSubmit, different] using keyed.fresh other later

theorem keyed_step (a : Action) (keyed : Keyed f) : Keyed (f.step a) := by
  cases a with
  | submit req =>
    simp only [OrderFlow.step, OrderFlow.submit]
    split
    · exact keyed
    · constructor
      · intro localId pc holds
        by_cases same : localId = f.client.idCounter
        · simp [same] at holds
        · exact keyed.own localId pc (by simpa [same] using holds)
      · intro localId later
        simp only at later
        have different : localId ≠ f.client.idCounter := by omega
        simpa [different] using keyed.fresh localId (by omega)
  | reply localId result now =>
    simp only [OrderFlow.step, OrderFlow.reply]
    split
    · rename_i holds
      exact set_submit_keyed keyed (by simp [holds]) (by simp)
    · rename_i holds
      refine set_submit_keyed keyed (by simp [holds]) ?_
      intro next same
      cases same
      rfl
    · exact keyed
  | submitStep localId =>
    simp only [OrderFlow.step, OrderFlow.submitStep]
    split
    · rename_i pc holds
      have advanced : Keyed (f.advance pc).1 :=
        ⟨by rw [advance_submits]; exact keyed.own,
          by rw [advance_submits, advance_counter]; exact keyed.fresh⟩
      refine set_submit_keyed advanced (by simp [advance_submits, holds]) ?_
      intro next same
      obtain ⟨left, eq, injected⟩ := Option.map_eq_some_iff.mp same
      cases injected
      exact (advance_local_id eq).trans (keyed.own localId pc holds)
    · exact keyed
  | report o now =>
    simp only [OrderFlow.step, OrderFlow.report]
    split
    · exact ⟨keyed.own, keyed.fresh⟩
    · exact keyed
  | streamStep =>
    simp only [OrderFlow.step, OrderFlow.streamStep]
    split
    · exact ⟨by simp only [advance_submits]; exact keyed.own,
        by simp only [advance_submits, advance_counter]; exact keyed.fresh⟩
    · exact keyed

theorem keyed_init (accountId : String) : Keyed (OrderFlow.init accountId) :=
  ⟨fun _ _ holds => by simp [OrderFlow.init] at holds, fun _ _ => rfl⟩

end Keys

section Views
variable (localId : ℤ)

def summary (st : OrderState) : Report OrderStatus := ⟨st.status, st.qtyFilled⟩

def UpsertPc.view : UpsertPc → Upsert OrderStatus
  | .read st => .read (summary st)
  | .write st upd => .write (summary st) upd.qtyFilled
  | .callback _ upd => .notify upd.qtyFilled

def OrderFlow.streamOn (f : OrderFlow) : Option UpsertPc :=
  f.stream.filter (fun pc => decide (pc.localId = localId))

def OrderFlow.submitOn (f : OrderFlow) : Option UpsertPc :=
  match f.submits localId with
  | some (.upserting pc) => some pc
  | _ => none

def OrderFlow.lastTaken (f : OrderFlow) : Option OrderState :=
  (f.taken.filter (fun st => decide (st.localId = localId))).getLast?

def OrderFlow.fills (f : OrderFlow) : List ℤ :=
  (f.delivered.filter (fun d => decide (d.1 = localId))).map (fun d => d.2.qtyFilled)

/-- One order's part of the state. -/
def OrderFlow.view (f : OrderFlow) : Cell OrderStatus :=
  { record := (f.client.orders localId).map summary
    feed := (f.streamOn localId).map UpsertPc.view
    opener := (f.submitOn localId).map UpsertPc.view
    last := (f.lastTaken localId).map summary
    deltas := f.fills localId }

def OrderFlow.actOn (f : OrderFlow) : Action → Act OrderStatus
  | .submit _ => .stay
  | .reply id result _ =>
    match f.submits id, result with
    | some (.placing _), .ok placed =>
      if id = localId then .start (mapStatus placed.status) else .stay
    | _, _ => .stay
  | .submitStep id => if id = localId then .openerStep else .stay
  | .report o _ =>
    if f.stream = none ∧ o.localId = localId then .take ⟨mapStatus o.status, o.executed⟩ else .stay
  | .streamStep => if (f.streamOn localId).isSome then .feedStep else .stay

end Views

section Refinement
variable {f : OrderFlow} {localId : ℤ} {pc : UpsertPc}

theorem view_quantity : quantity (f.view localId).record = f.client.prevFilled localId := by
  simp only [OrderFlow.view, OrderClient.prevFilled]
  cases f.client.orders localId <;> rfl

theorem advance_own (own : pc.localId = localId) :
    ((f.advance pc).1.client.orders localId).map summary =
        ((f.view localId).advance pc.view).1.record ∧
      (f.advance pc).1.fills localId = ((f.view localId).advance pc.view).1.deltas ∧
      (f.advance pc).2.map UpsertPc.view = ((f.view localId).advance pc.view).2 := by
  subst own
  cases pc with
  | read st =>
    refine ⟨rfl, rfl, ?_⟩
    simp only [OrderFlow.advance, UpsertPc.view, Cell.advance, Option.map_some, view_quantity]
    rfl
  | write st upd =>
    refine ⟨?_, rfl, rfl⟩
    simp [OrderFlow.advance, UpsertPc.view, UpsertPc.localId, Cell.advance, store_orders]
  | callback id upd =>
    refine ⟨rfl, ?_, rfl⟩
    simp [OrderFlow.advance, UpsertPc.view, UpsertPc.localId, Cell.advance, OrderFlow.fills,
      OrderFlow.view]

theorem advance_other (other : pc.localId ≠ localId) :
    (f.advance pc).1.client.orders localId = f.client.orders localId ∧
      (f.advance pc).1.fills localId = f.fills localId := by
  cases pc with
  | read st => exact ⟨rfl, rfl⟩
  | write st upd =>
    refine ⟨?_, rfl⟩
    have different : localId ≠ st.localId := Ne.symm other
    simp [OrderFlow.advance, store_orders, different]
  | callback id upd =>
    refine ⟨rfl, ?_⟩
    have different : ¬ id = localId := other
    simp [OrderFlow.advance, OrderFlow.fills, different]

theorem advance_frame (pc : UpsertPc) : (f.advance pc).1.stream = f.stream ∧
    (f.advance pc).1.taken = f.taken := by
  cases pc <;> exact ⟨rfl, rfl⟩

theorem view_submit (keyed : Keyed f) (req : OrderRequest) :
    (f.submit req).view localId = f.view localId := by
  unfold OrderFlow.submit
  split
  · rfl
  · refine Cell.ext rfl rfl ?_ rfl rfl
    simp only [OrderFlow.view, OrderFlow.submitOn]
    by_cases same : localId = f.client.idCounter
    · rw [keyed.fresh localId (by omega)]
      simp [same]
    · simp [same]

theorem view_set_submit {pc : Option SubmitPc} : (f.setSubmit localId pc).view localId =
    { f.view localId with
      opener := match pc with
        | some (.upserting pc) => some pc.view
        | _ => none } := by
  refine Cell.ext rfl rfl ?_ rfl rfl
  simp only [OrderFlow.view, OrderFlow.submitOn, OrderFlow.setSubmit, Function.update_self]
  split <;> rfl

theorem view_set_other {id : ℤ} {pc : Option SubmitPc} (other : id ≠ localId) :
    (f.setSubmit id pc).view localId = f.view localId := by
  refine Cell.ext rfl rfl ?_ rfl rfl
  have different : localId ≠ id := Ne.symm other
  simp [OrderFlow.view, OrderFlow.submitOn, OrderFlow.setSubmit, different]

theorem opener_placing {req : OrderRequest} (placing : f.submits localId = some (.placing req)) :
    (f.view localId).opener = none := by
  simp [OrderFlow.view, OrderFlow.submitOn, placing]

theorem view_reply (id : ℤ) (result : Result PlaceReply) (now : ℤ) :
    (f.reply id result now).view localId =
      (f.view localId).step (f.actOn localId (.reply id result now)) := by
  simp only [OrderFlow.reply, OrderFlow.actOn]
  cases holds : f.submits id with
  | none => rfl
  | some pc =>
    cases pc with
    | upserting pc => rfl
    | placing req =>
      by_cases own : id = localId
      · subst own
        have idle := opener_placing holds
        cases result with
        | error e =>
          rw [view_set_submit]
          exact Cell.ext rfl rfl idle.symm rfl rfl
        | ok placed =>
          simp only [view_set_submit, ↓reduceIte, Cell.step, idle]
          rfl
      · cases result with
        | error e => exact view_set_other own
        | ok placed =>
          simp only [own, ↓reduceIte]
          exact view_set_other own

theorem view_submit_step (keyed : Keyed f) (id : ℤ) : (f.submitStep id).view localId =
    (f.view localId).step (f.actOn localId (.submitStep id)) := by
  simp only [OrderFlow.submitStep, OrderFlow.actOn]
  split
  · rename_i pc holds
    have keys := keyed.own id pc holds
    obtain ⟨sameStream, sameTaken⟩ := advance_frame (f := f) pc
    by_cases own : id = localId
    · subst own
      obtain ⟨record, deltas, rest⟩ := advance_own (f := f) keys
      have opener : (f.view id).opener = some pc.view := by
        simp [OrderFlow.view, OrderFlow.submitOn, holds]
      rw [view_set_submit, if_pos rfl]
      simp only [Cell.step, opener]
      refine Cell.ext record ?_ ?_ ?_ deltas
      · cases pc <;> rfl
      · rw [← rest]
        cases (f.advance pc).2 <;> rfl
      · cases pc <;> rfl
    · have other : pc.localId ≠ localId := keys ▸ own
      obtain ⟨record, deltas⟩ := advance_other (f := f) other
      rw [view_set_other own, if_neg own]
      simp only [OrderFlow.view, OrderFlow.streamOn, OrderFlow.submitOn, OrderFlow.lastTaken,
        record, deltas, sameStream, sameTaken, advance_submits, Cell.step]
  · rename_i idle
    by_cases own : id = localId
    · subst own
      have opener : (f.view id).opener = none := by
        simp only [OrderFlow.view, OrderFlow.submitOn, Option.map_none]
      simp [Cell.step, opener]
    · simp [Cell.step, own]

theorem view_report (o : OrderReport) (now : ℤ) : (f.report o now).view localId =
    (f.view localId).step (f.actOn localId (.report o now)) := by
  simp only [OrderFlow.report, OrderFlow.actOn]
  cases stage : f.stream with
  | some pc => simp [Cell.step]
  | none =>
    have feed : (f.view localId).feed = none := by
      simp [OrderFlow.view, OrderFlow.streamOn, stage]
    have decoded : (f.client.reportState o now).localId = o.localId := rfl
    by_cases own : o.localId = localId
    · simp only [own, and_self, ↓reduceIte, Cell.step, feed]
      refine Cell.ext rfl ?_ rfl ?_ rfl
      · simp [OrderFlow.view, OrderFlow.streamOn, UpsertPc.localId, decoded, own]
        rfl
      · simp [OrderFlow.view, OrderFlow.lastTaken, decoded, own]
        rfl
    · simp only [own, and_false, ↓reduceIte, Cell.step]
      refine Cell.ext rfl ?_ rfl ?_ rfl
      · simp [OrderFlow.view, OrderFlow.streamOn, UpsertPc.localId, decoded, own, stage]
      · simp [OrderFlow.view, OrderFlow.lastTaken, decoded, own]

theorem view_stream_step : f.streamStep.view localId =
    (f.view localId).step (f.actOn localId .streamStep) := by
  simp only [OrderFlow.streamStep, OrderFlow.actOn]
  cases stage : f.stream with
  | none => simp [OrderFlow.streamOn, stage, Cell.step]
  | some pc =>
    obtain ⟨sameStream, sameTaken⟩ := advance_frame (f := f) pc
    by_cases own : pc.localId = localId
    · obtain ⟨record, deltas, rest⟩ := advance_own (f := f) own
      have working : f.streamOn localId = some pc := by
        simp [OrderFlow.streamOn, stage, own]
      have feed : (f.view localId).feed = some pc.view := by
        simp [OrderFlow.view, working]
      simp only [working, Option.isSome_some, ↓reduceIte, Cell.step, feed]
      refine Cell.ext record ?_ ?_ ?_ deltas
      · rw [← rest]
        simp only [OrderFlow.view, OrderFlow.streamOn]
        cases left : (f.advance pc).2 with
        | none => rfl
        | some next => simp [(advance_local_id left).trans own]
      · cases pc <;> rfl
      · cases pc <;> rfl
    · obtain ⟨record, deltas⟩ := advance_other (f := f) own
      have idle : f.streamOn localId = none := by
        simp [OrderFlow.streamOn, stage, own]
      simp only [idle, Option.isSome_none, Bool.false_eq_true, ↓reduceIte, Cell.step]
      refine Cell.ext (congrArg (Option.map summary) record) ?_ ?_ ?_ deltas
      · simp only [OrderFlow.view, idle]
        simp only [OrderFlow.streamOn]
        cases left : (f.advance pc).2 with
        | none => rfl
        | some next => simp [advance_local_id left, own]
      · simp only [OrderFlow.view, OrderFlow.submitOn, advance_submits]
      · simp only [OrderFlow.view, OrderFlow.lastTaken, sameTaken]

/-- Every order of the client runs as a cell of its own. -/
theorem view_step (keyed : Keyed f) (a : Action) :
    (f.step a).view localId = (f.view localId).step (f.actOn localId a) := by
  cases a with
  | submit req => exact view_submit keyed req
  | reply id result now => exact view_reply id result now
  | submitStep id => exact view_submit_step keyed id
  | report o now => exact view_report o now
  | streamStep => exact view_stream_step

end Refinement

section Contents
variable {R : OrderRequest → Prop} {S : OrderState → Prop} {U : OrderUpdate → Prop}
  {f : OrderFlow} {a : Action}

/-- The state whose previous quantity a step reads. -/
def OrderFlow.reading (f : OrderFlow) : Action → Option OrderState
  | .submitStep localId =>
    match f.submits localId with
    | some (.upserting (.read st)) => some st
    | _ => none
  | .streamStep =>
    match f.stream with
    | some (.read st) => some st
    | _ => none
  | .submit _ | .reply _ _ _ | .report _ _ => none

def UpsertPc.Holds (S : OrderState → Prop) (U : OrderUpdate → Prop) : UpsertPc → Prop
  | .read st => S st
  | .write st upd => S st ∧ U upd
  | .callback _ upd => U upd

/-- All requests, states and updates on their way through the client satisfy `R`, `S`
    and `U`. -/
structure Carries (R : OrderRequest → Prop) (S : OrderState → Prop) (U : OrderUpdate → Prop)
    (f : OrderFlow) : Prop where
  requests : ∀ localId req, f.submits localId = some (.placing req) → R req
  submits : ∀ localId pc, f.submits localId = some (.upserting pc) → pc.Holds S U
  stream : ∀ pc, f.stream = some pc → pc.Holds S U
  delivered : ∀ localId upd, (localId, upd) ∈ f.delivered → U upd

structure Hands (R : OrderRequest → Prop) (S : OrderState → Prop) : Prop where
  submit : ∀ localId req placed now, R req → S (submitState localId req placed now)
  report : ∀ (c : OrderClient) o now, S (c.reportState o now)

theorem carries_init (accountId : String) : Carries R S U (OrderFlow.init accountId) where
  requests localId req holds := by simp [OrderFlow.init] at holds
  submits localId pc holds := by simp [OrderFlow.init] at holds
  stream pc holds := by simp [OrderFlow.init] at holds
  delivered localId upd member := by simp [OrderFlow.init] at member

theorem advance_carries {pc : UpsertPc} (carries : Carries R S U f) (holds : pc.Holds S U)
    (reads : ∀ st, pc = .read st → U (f.client.orderUpdate st (f.client.prevFilled st.localId))) :
    Carries R S U (f.advance pc).1 ∧ ∀ next, (f.advance pc).2 = some next → next.Holds S U := by
  cases pc with
  | read st =>
    refine ⟨carries, ?_⟩
    rintro next ⟨⟩
    exact ⟨holds, reads st rfl⟩
  | write st upd =>
    refine ⟨⟨carries.requests, carries.submits, carries.stream, carries.delivered⟩, ?_⟩
    rintro next ⟨⟩
    exact holds.2
  | callback localId upd =>
    refine ⟨⟨carries.requests, carries.submits, carries.stream, ?_⟩, ?_⟩
    · intro other delivered member
      rcases List.mem_append.mp member with old | new
      · exact carries.delivered other delivered old
      · cases List.mem_singleton.mp new
        exact holds
    · intro next impossible
      cases impossible

theorem set_submit_carries {localId : ℤ} {pc : Option SubmitPc} (carries : Carries R S U f)
    (request : ∀ req, pc = some (.placing req) → R req)
    (upsert : ∀ next, pc = some (.upserting next) → next.Holds S U) :
    Carries R S U (f.setSubmit localId pc) := by
  refine ⟨?_, ?_, carries.stream, carries.delivered⟩
  · intro other req holds
    by_cases same : other = localId
    · exact request req (by simpa [OrderFlow.setSubmit, same] using holds)
    · exact carries.requests other req (by simpa [OrderFlow.setSubmit, same] using holds)
  · intro other next holds
    by_cases same : other = localId
    · exact upsert next (by simpa [OrderFlow.setSubmit, same] using holds)
    · exact carries.submits other next (by simpa [OrderFlow.setSubmit, same] using holds)

theorem carries_step (hands : Hands R S) (carries : Carries R S U f)
    (requests : ∀ req, a = .submit req → R req)
    (reads : ∀ st, S st → f.reading a = some st →
      U (f.client.orderUpdate st (f.client.prevFilled st.localId))) :
    Carries R S U (f.step a) := by
  cases a with
  | submit req =>
    simp only [OrderFlow.step, OrderFlow.submit]
    split
    · exact carries
    · have placed : Carries R S U (f.setSubmit f.client.idCounter (some (.placing req))) := by
        refine set_submit_carries carries ?_ (by simp)
        rintro other ⟨⟩
        exact requests req rfl
      exact ⟨placed.requests, placed.submits, placed.stream, placed.delivered⟩
  | reply localId result now =>
    simp only [OrderFlow.step, OrderFlow.reply]
    split
    · exact set_submit_carries carries (by simp) (by simp)
    · rename_i req placed holds
      refine set_submit_carries carries (by simp) ?_
      rintro next ⟨⟩
      exact hands.submit localId req placed now (carries.requests localId req holds)
    · exact carries
  | submitStep localId =>
    simp only [OrderFlow.step, OrderFlow.submitStep]
    split
    · rename_i pc working
      have holds := carries.submits localId pc working
      obtain ⟨advanced, left⟩ := advance_carries carries holds (by
        rintro st rfl
        exact reads st holds (by simp [OrderFlow.reading, working]))
      refine set_submit_carries advanced (by simp) ?_
      intro next same
      obtain ⟨rest, eq, injected⟩ := Option.map_eq_some_iff.mp same
      cases injected
      exact left next eq
    · exact carries
  | report o now =>
    simp only [OrderFlow.step, OrderFlow.report]
    split
    · refine ⟨carries.requests, carries.submits, ?_, carries.delivered⟩
      rintro pc ⟨⟩
      exact hands.report f.client o now
    · exact carries
  | streamStep =>
    simp only [OrderFlow.step, OrderFlow.streamStep]
    split
    · rename_i pc working
      have holds := carries.stream pc working
      obtain ⟨advanced, left⟩ := advance_carries carries holds (by
        rintro st rfl
        exact reads st holds (by simp [OrderFlow.reading, working]))
      exact ⟨advanced.requests, advanced.submits, left, advanced.delivered⟩
    · exact carries

end Contents

end FinamOrderFlow
