import FinamTradebot.OrderClient
import FinamTradebot.Runs

/-!
Which record an exchange order has. The client files every order under the number in its
client id, 0 where there is none, and the risk manager under the low 32 bits of that
number; the exchange's own order id is stored and never looked up. An upsert is one step
here, and the run keeps what every upsert filed.
-/
namespace FinamOrderIdentity
open FinamInterfaces FinamOrderClient Runs

/-- `place` is a call of `submit` with the reply to its `PlaceOrder`, `report` an order of
    the stream. -/
inductive Event where
  | place (req : OrderRequest) (result : Result PlaceReply) (now : ℤ)
  | report (o : OrderReport) (now : ℤ)

/-- The client before the upsert of an event, and the state the event upserts. -/
def incoming (c : OrderClient) : Event → OrderClient × Option OrderState
  | .place req result now =>
    match validate req with
    | some _ => (c, none)
    | none =>
      let next := { c with idCounter := c.idCounter + 1 }
      match result with
      | .error _ => (next, none)
      | .ok reply => (next, some (submitState c.idCounter req reply now))
  | .report o now => (c, some (c.reportState o now))

structure Filed where
  orderId : String
  localId : ℤ
  transactionId : ℤ
  filled : ℤ
  deriving DecidableEq, Repr

structure Book where
  client : OrderClient
  filed : List Filed := []

def fileOf (st : OrderState) (upd : OrderUpdate) : Filed :=
  ⟨st.orderId, st.localId, upd.transactionId, st.qtyFilled⟩

def Book.step (b : Book) (e : Event) : Book :=
  match incoming b.client e with
  | (c, none) => { b with client := c }
  | (c, some st) => ⟨(c.upsert st).1, b.filed ++ [fileOf st (c.upsert st).2]⟩

/-- The quantity last filed under a key. -/
def lastFilled (localId : ℤ) (filed : List Filed) : ℤ :=
  ((filed.filter (fun f => decide (f.localId = localId))).getLast?.map Filed.filled).getD 0

/-- An upsert shares neither its record nor the key of its update with another exchange
    order, and delivers the difference to what its own order filed before. -/
def KeepsIdentity (b : Book) (e : Event) : Prop :=
  ∀ st ∈ (incoming b.client e).2,
    let upd := ((incoming b.client e).1.upsert st).2
    (∀ f ∈ b.filed, f.orderId ≠ st.orderId →
      f.localId ≠ st.localId ∧ f.transactionId ≠ upd.transactionId) ∧
    upd.qtyFilled = st.qtyFilled -
      lastFilled st.localId (b.filed.filter (fun f => decide (f.orderId = st.orderId)))

/-- The condition on an event: its number differs modulo 2^32 from those of all earlier
    events of other exchange orders. -/
def Apart (b : Book) (e : Event) : Prop :=
  ∀ st ∈ (incoming b.client e).2, ∀ f ∈ b.filed, f.orderId ≠ st.orderId →
    (f.localId - st.localId) % 2 ^ 32 ≠ 0

section Step
variable {b : Book} {e : Event}

structure Follows (b : Book) : Prop where
  record : ∀ localId, b.client.prevFilled localId = lastFilled localId b.filed
  narrowed : ∀ f ∈ b.filed, f.transactionId = toInt32 f.localId

theorem narrow_eq_iff (a b : ℤ) : toInt32 a = toInt32 b ↔ (a - b) % 2 ^ 32 = 0 := by
  unfold toInt32
  rw [Int.bmod_eq_bmod_iff_bmod_sub_eq_zero, ← Int.dvd_iff_bmod_eq_zero]
  exact Int.dvd_iff_emod_eq_zero

theorem incoming_prev_filled (c : OrderClient) (e : Event) (localId : ℤ) :
    (incoming c e).1.prevFilled localId = c.prevFilled localId := by
  unfold incoming
  cases e with
  | report o now => rfl
  | place req result now =>
    dsimp only
    cases validate req with
    | some err => rfl
    | none => cases result <;> rfl

theorem last_filled_append (localId : ℤ) (filed : List Filed) (f : Filed) :
    lastFilled localId (filed ++ [f]) =
      if f.localId = localId then f.filled else lastFilled localId filed := by
  unfold lastFilled
  by_cases same : f.localId = localId
  · simp [List.filter_append, same]
  · simp [List.filter_append, same]

/-- Where no other order is filed under the key, the record is the order's own. -/
theorem last_filled_own {localId : ℤ} {orderId : String} {filed : List Filed}
    (apart : ∀ f ∈ filed, f.orderId ≠ orderId → f.localId ≠ localId) :
    lastFilled localId (filed.filter (fun f => decide (f.orderId = orderId))) =
      lastFilled localId filed := by
  unfold lastFilled
  rw [List.filter_filter]
  congr 3
  refine List.filter_congr ?_
  intro f member
  by_cases own : f.orderId = orderId
  · simp [own]
  · simp [own, apart f member own]

theorem follows_step (follows : Follows b) : Follows (b.step e) := by
  have same := incoming_prev_filled b.client e
  unfold Book.step
  cases here : incoming b.client e with
  | mk c arriving =>
    rw [here] at same
    cases arriving with
    | none =>
      refine ⟨?_, follows.narrowed⟩
      intro localId
      exact (same localId).trans (follows.record localId)
    | some st =>
      constructor
      · intro localId
        change (c.store st).prevFilled localId = lastFilled localId (b.filed ++ [_])
        rw [store_prev_filled, last_filled_append, same, follows.record]
        change _ = if st.localId = localId then st.qtyFilled else _
        by_cases own : localId = st.localId
        · rw [if_pos own, if_pos own.symm]
        · rw [if_neg own, if_neg (fun eq => own eq.symm)]
      · intro f member
        rcases List.mem_append.mp member with old | new
        · exact follows.narrowed f old
        · rw [List.mem_singleton.mp new]
          rfl

theorem identity_iff_apart (follows : Follows b) : KeepsIdentity b e ↔ Apart b e := by
  constructor
  · intro kept st arriving f member other
    have keys := ((kept st arriving).1 f member other).2
    rw [follows.narrowed f member] at keys
    exact fun same => keys ((narrow_eq_iff _ _).mpr same)
  · intro apart st arriving
    have distinct : ∀ f ∈ b.filed, f.orderId ≠ st.orderId → f.localId ≠ st.localId := by
      intro f member other same
      apply apart st arriving f member other
      rw [same, sub_self]
      rfl
    refine ⟨?_, ?_⟩
    · intro f member other
      refine ⟨distinct f member other, ?_⟩
      rw [follows.narrowed f member]
      exact fun same => apart st arriving f member other ((narrow_eq_iff _ _).mp same)
    · change st.qtyFilled - (incoming b.client e).1.prevFilled st.localId = _
      rw [incoming_prev_filled, follows.record, last_filled_own distinct]

end Step

/-- For every sequence of placements and reports: every order keeps its record, its key
    and its own quantities exactly if the client ids of different exchange orders, read as
    numbers with 0 for none, differ modulo 2^32. -/
theorem order_identity_kept_iff (accountId : String) (events : List Event) :
    Along Book.step KeepsIdentity { client := { accountId := accountId } } events ↔
      Along Book.step Apart { client := { accountId := accountId } } events := by
  have start : Follows { client := { accountId := accountId } } :=
    ⟨fun _ => rfl, fun f none => by cases none⟩
  exact along_iff_of_invariant (I := Follows) (fun b e follows => identity_iff_apart follows)
    (fun b e follows => follows_step follows) start

instance (b : Book) (e : Event) : Decidable (KeepsIdentity b e) :=
  inferInstanceAs (Decidable (∀ st ∈ (incoming b.client e).2, _ ∧ _))

/-- A report of an order that was not placed by this process. -/
def foreignReport (orderId executed : String) : OrderReport :=
  { orderId := orderId, clientOrderId := "", side := .buy, type := .market,
    status := .partiallyFilled, initialQuantity := "10", executedQuantity := executed }

/-- Two orders without client ids share the record 0: the second is delivered as a fill of
    minus two contracts. -/
theorem foreign_orders_share_record :
    let start : Book := { client := { accountId := "account" } }
    let events : List Event := [.report (foreignReport "A" "5") 1, .report (foreignReport "B" "3") 2]
    let first := start.step (.report (foreignReport "A" "5") 1)
    let second := first.client.onReport (foreignReport "B" "3") 2
    second.2.qtyFilled = -2 ∧ (run Book.step start events).filed.map Filed.localId = [0, 0] ∧
      ¬Along Book.step KeepsIdentity start events := by
  decide +kernel

end FinamOrderIdentity
