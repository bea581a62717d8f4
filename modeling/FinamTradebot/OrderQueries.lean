import FinamTradebot.OrderFlow
import Mathlib.Data.List.Induction

/-!
`cancel`, `find` and `active_orders` of order/order_client.cpp, asked at any moment of the
threads of `OrderFlow`. A cancel is the request it sends; the reply changes no record. The
map is iterated in an order the code does not fix, so `active_orders` takes it as a list of
the keys.
-/
namespace FinamOrderQueries
open FinamInterfaces FinamOrderClient FinamOrderFlow Runs

structure CancelOrder where
  accountId : String
  orderId : String
  deriving DecidableEq

def find (c : OrderClient) (localId : ℤ) : Option OrderState := c.orders localId

def cancel (c : OrderClient) (localId : ℤ) : Result CancelOrder :=
  match c.orders localId with
  | none => .error ⟨.invalidArgument, "order local_id=" ++ toString localId ++ " not found"⟩
  | some st =>
    if st.orderId = "" then .error ⟨.invalidArgument, "exchange order_id is empty"⟩
    else .ok ⟨c.accountId, st.orderId⟩

def isLive (st : OrderState) : Bool := decide (st.status = .pending) || decide (st.status = .partialFill)

def activeOrders (c : OrderClient) (keys : List ℤ) : List OrderState :=
  keys.filterMap fun localId => (c.orders localId).filter isLive

/-- The exchange's ids for a client order id: those of the replies to its `PlaceOrder` and of
    the reports that carry it. -/
def givenIds (localId : ℤ) : List Action → List String
  | [] => []
  | .reply id (.ok placed) _ :: rest =>
    if id = localId then placed.orderId :: givenIds localId rest else givenIds localId rest
  | .report o _ :: rest =>
    if o.localId = localId then o.orderId :: givenIds localId rest else givenIds localId rest
  | .reply _ (.error _) _ :: rest | .submit _ :: rest | .submitStep _ :: rest | .streamStep :: rest =>
    givenIds localId rest

section Known
variable {account : String} {acts : List Action} {f : OrderFlow}

theorem given_append (localId : ℤ) (first later : List Action) :
    givenIds localId (first ++ later) = givenIds localId first ++ givenIds localId later := by
  induction first with
  | nil => rfl
  | cons a rest ih =>
    cases a with
    | reply id result now =>
      cases result with
      | error e => exact ih
      | ok placed =>
        simp only [List.cons_append, givenIds, ih]
        split <;> rfl
    | report o now =>
      simp only [List.cons_append, givenIds, ih]
      split <;> rfl
    | submit | submitStep | streamStep => exact ih

def stateOf : UpsertPc → Option OrderState
  | .read st | .write st _ => some st
  | .callback _ _ => none

def Given (acts : List Action) (st : OrderState) : Prop := st.orderId ∈ givenIds st.localId acts

theorem given_more {st : OrderState} (given : Given acts st) (later : List Action) :
    Given (acts ++ later) st := by
  rw [Given, given_append]
  exact List.mem_append_left _ given

/-- Every record and every state on its way into the map has its exchange id from the
    exchange, under the same client order id. -/
structure Known (account : String) (acts : List Action) (f : OrderFlow) : Prop where
  account : f.client.accountId = account
  records : ∀ localId st, f.client.orders localId = some st → st.localId = localId ∧ Given acts st
  submits : ∀ localId pc st, f.submits localId = some (.upserting pc) → stateOf pc = some st → Given acts st
  stream : ∀ pc st, f.stream = some pc → stateOf pc = some st → Given acts st

theorem known_more (known : Known account acts f) (later : List Action) :
    Known account (acts ++ later) f where
  account := known.account
  records localId st found := ⟨(known.records localId st found).1, given_more (known.records localId st found).2 later⟩
  submits localId pc st at_ here := given_more (known.submits localId pc st at_ here) later
  stream pc st at_ here := given_more (known.stream pc st at_ here) later

/-- A step of an `upsert` whose state is given keeps the records and the state. -/
theorem advance_known (known : Known account acts f) {pc : UpsertPc}
    (given : ∀ st, stateOf pc = some st → Given acts st) :
    Known account acts (f.advance pc).1 ∧
      ∀ next st, (f.advance pc).2 = some next → stateOf next = some st → Given acts st := by
  cases pc with
  | read st =>
    refine ⟨known, ?_⟩
    rintro next st' ⟨⟩ here
    exact given st' here
  | write st upd =>
    constructor
    · refine ⟨known.account, ?_, known.submits, known.stream⟩
      intro localId st' found
      by_cases own : localId = st.localId
      · subst own
        simp only [OrderFlow.advance, store_orders, ↓reduceIte, Option.some.injEq] at found
        subst found
        exact ⟨rfl, given st rfl⟩
      · simp only [OrderFlow.advance, store_orders, own, ↓reduceIte] at found
        exact known.records localId st' found
    · rintro next st' ⟨⟩ here
      cases here
  | callback localId upd =>
    refine ⟨⟨known.account, known.records, known.submits, known.stream⟩, ?_⟩
    intro next st none_
    cases none_

theorem known_set_submit (known : Known account acts f) (localId : ℤ) {pc : Option SubmitPc}
    (given : ∀ next st, pc = some (.upserting next) → stateOf next = some st → Given acts st) :
    Known account acts (f.setSubmit localId pc) := by
  refine ⟨known.account, known.records, ?_, known.stream⟩
  intro other next st at_ here
  by_cases same : other = localId
  · subst same
    exact given next st (by simpa [OrderFlow.setSubmit] using at_) here
  · exact known.submits other next st (by simpa [OrderFlow.setSubmit, same] using at_) here

theorem known_step (known : Known account acts f) (a : Action) : Known account (acts ++ [a]) (f.step a) := by
  have more := known_more known [a]
  cases a with
  | submit req =>
    simp only [OrderFlow.step, OrderFlow.submit]
    split
    · exact more
    · refine ⟨more.account, more.records, ?_, more.stream⟩
      intro localId pc st at_ here
      by_cases new : localId = f.client.idCounter
      · simp [new] at at_
      · exact more.submits localId pc st (by simpa [new] using at_) here
  | reply localId result now =>
    simp only [OrderFlow.step, OrderFlow.reply]
    split
    · exact known_set_submit more localId fun next st none_ => by cases none_
    · rename_i placed at_
      refine known_set_submit more localId ?_
      rintro next st ⟨⟩ ⟨⟩
      rw [Given, given_append]
      exact List.mem_append_right _ (by simp [givenIds, submitState])
    · exact more
  | submitStep localId =>
    simp only [OrderFlow.step, OrderFlow.submitStep]
    split
    · rename_i pc at_
      obtain ⟨advanced, left⟩ := advance_known more (fun st here => more.submits localId pc st at_ here)
      refine known_set_submit advanced localId ?_
      intro next st same here
      obtain ⟨pc', eq, injected⟩ := Option.map_eq_some_iff.mp same
      cases injected
      exact left next st eq here
    · exact more
  | report o now =>
    simp only [OrderFlow.step, OrderFlow.report]
    split
    · refine ⟨more.account, more.records, more.submits, ?_⟩
      rintro pc st ⟨⟩ ⟨⟩
      rw [Given, given_append]
      exact List.mem_append_right _ (by simp [givenIds, OrderClient.reportState])
    · exact more
  | streamStep =>
    simp only [OrderFlow.step, OrderFlow.streamStep]
    split
    · rename_i pc at_
      obtain ⟨advanced, left⟩ := advance_known more (fun st here => more.stream pc st at_ here)
      exact ⟨advanced.account, advanced.records, advanced.submits, fun next st eq here => left next st eq here⟩
    · exact more

theorem known_run (account : String) (acts : List Action) :
    Known account acts (run OrderFlow.step (.init account) acts) := by
  induction acts using List.reverseRecOn with
  | nil =>
    refine ⟨rfl, ?_, ?_, ?_⟩
    · intro localId st none_
      cases none_
    · intro localId pc st none_
      cases none_
    · intro pc st none_
      cases none_
  | append_singleton acts a ih =>
    rw [run_append]
    exact known_step ih a

end Known

section Queries
variable {c : OrderClient}

/-- The keys of the map, each once. -/
structure Enumerates (c : OrderClient) (keys : List ℤ) : Prop where
  distinct : keys.Nodup
  all : ∀ localId, localId ∈ keys ↔ c.orders localId ≠ none

theorem active_iff {keys : List ℤ} (enumerates : Enumerates c keys)
    (own : ∀ localId st, c.orders localId = some st → st.localId = localId) (st : OrderState) :
    st ∈ activeOrders c keys ↔ find c st.localId = some st ∧ isLive st = true := by
  simp only [activeOrders, List.mem_filterMap, Option.filter_eq_some_iff, find]
  constructor
  · rintro ⟨localId, -, found, live⟩
    rw [own localId st found]
    exact ⟨found, live⟩
  · rintro ⟨found, live⟩
    exact ⟨st.localId, (enumerates.all _).mpr (by simp [found]), found, live⟩

theorem active_sublist (own : ∀ localId st, c.orders localId = some st → st.localId = localId)
    (keys : List ℤ) : ((activeOrders c keys).map OrderState.localId).Sublist keys := by
  induction keys with
  | nil => exact .slnil
  | cons localId rest ih =>
    cases live : (c.orders localId).filter isLive with
    | none =>
      have skipped : activeOrders c (localId :: rest) = activeOrders c rest := by
        rw [activeOrders, List.filterMap_cons, live]
        rfl
      rw [skipped]
      exact ih.cons localId
    | some st =>
      have listed : activeOrders c (localId :: rest) = st :: activeOrders c rest := by
        rw [activeOrders, List.filterMap_cons, live]
        rfl
      have key : st.localId = localId := own localId st (Option.filter_eq_some_iff.mp live).1
      rw [listed, List.map_cons, key]
      exact ih.cons_cons localId

theorem cancel_cases (c : OrderClient) (localId : ℤ) :
    (∃ st, find c localId = some st ∧ st.orderId ≠ "" ∧
      cancel c localId = .ok ⟨c.accountId, st.orderId⟩) ∨
    (∃ e, cancel c localId = .error e ∧ e.code = .invalidArgument ∧
      ∀ st, find c localId = some st → st.orderId = "") := by
  unfold cancel find
  cases found : c.orders localId with
  | none => exact Or.inr ⟨_, rfl, rfl, fun st none_ => by cases none_⟩
  | some st =>
    dsimp only
    split_ifs with empty
    · exact Or.inr ⟨_, rfl, rfl, fun st' same => by cases same; exact empty⟩
    · exact Or.inl ⟨st, rfl, empty, rfl⟩

/-- At every moment of every interleaving: a cancel that is sent names an id which the
    exchange itself has given for that order, and one that is not sent has no such id in its
    record; `active_orders` lists the live records of the map, one for each order. -/
theorem order_queries_consistent (account : String) (acts : List Action) (keys : List ℤ)
    (enumerates : Enumerates (run OrderFlow.step (.init account) acts).client keys) :
    let c := (run OrderFlow.step (.init account) acts).client
    (∀ localId, match cancel c localId with
      | .ok request => request.accountId = account ∧ request.orderId ≠ "" ∧
          request.orderId ∈ givenIds localId acts
      | .error e => e.code = .invalidArgument ∧ ∀ st, find c localId = some st → st.orderId = "") ∧
    (∀ st, st ∈ activeOrders c keys ↔ find c st.localId = some st ∧ isLive st = true) ∧
    ((activeOrders c keys).map OrderState.localId).Nodup := by
  intro c
  have known := known_run account acts
  have own : ∀ localId st, c.orders localId = some st → st.localId = localId :=
    fun localId st found => (known.records localId st found).1
  refine ⟨?_, active_iff enumerates own, enumerates.distinct.sublist (active_sublist own keys)⟩
  intro localId
  rcases cancel_cases c localId with ⟨st, found, some_, eq⟩ | ⟨e, eq, code, empty⟩
  · obtain ⟨key, given⟩ := known.records localId st found
    rw [eq]
    refine ⟨known.account, some_, ?_⟩
    rw [← key]
    exact given
  · rw [eq]
    exact ⟨code, empty⟩

/-- An order whose reply has come in, one whose reply is still out, and one the stream has
    reported filled. -/
def threeOrders : List Action :=
  let req : OrderRequest := ⟨"ACC001", ⟨"SiM6", "RTSX"⟩, .buy, .market, 0, 1⟩
  [.submit req, .submit req, .submit req, .reply 1 (.ok ⟨"770", .new⟩) 0, .submitStep 1, .submitStep 1,
    .report ⟨"771", "3", .buy, .market, .filled, "1", "1"⟩ 0, .streamStep, .streamStep]

theorem three_orders_enumerated :
    Enumerates (run OrderFlow.step (.init "ACC001") threeOrders).client [1, 3] := by
  refine ⟨by decide, ?_⟩
  intro localId
  obtain ⟨first, third, eq⟩ : ∃ first third, (run OrderFlow.step (.init "ACC001") threeOrders).client.orders =
      Function.update (Function.update (fun _ => none) 1 (some first)) 3 (some third) := ⟨_, _, rfl⟩
  rw [eq]
  by_cases three : localId = 3
  · simp [three]
  · by_cases one : localId = 1
    · simp [one]
    · simp [three, one]

/-- The first order is cancelled by the id of its reply. -/
theorem three_orders_queried :
    let c := (run OrderFlow.step (.init "ACC001") threeOrders).client
    cancel c 1 = .ok ⟨"ACC001", "770"⟩ ∧ "770" ∈ givenIds 1 threeOrders ∧
      ((activeOrders c [1, 3]).map OrderState.localId).Nodup := by
  intro c
  have queries := order_queries_consistent "ACC001" threeOrders [1, 3] three_orders_enumerated
  have sent : cancel c 1 = .ok ⟨"ACC001", "770"⟩ := by decide +kernel
  have first := queries.1 1
  rw [sent] at first
  exact ⟨sent, first.2.2, queries.2.2⟩

end Queries

end FinamOrderQueries
