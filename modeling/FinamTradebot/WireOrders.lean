import FinamTradebot.DecimalText
import FinamTradebot.HistorySeries
import FinamTradebot.OrderFlow

/-!
The texts of the messages of order/order_client.cpp. `set_decimal` writes a number as
`%.10g` and `std::to_string` the local id; the stream thread reads such texts back with
`std::stod` and `std::stol`. A broker that echoes what it was sent is read back as it was
meant.
-/
namespace FinamWireOrders
open FinamInterfaces FinamOrderClient FinamOrderFlow FinamHistorySeries DecimalText Runs

def setDecimal (v : ℚ) : String := String.ofList (generalNumeral 10 v).render

section Reading

theorem digits_value_eq (digits : List Char) : digitsValue digits = digitsOf digits := rfl

theorem scale_eq_zpow (mantissa : ℚ) (e : ℤ) : scale mantissa e = mantissa * 10 ^ e := by
  unfold scale
  split_ifs with nonneg
  · rw [← zpow_natCast, Int.toNat_of_nonneg nonneg]
  · rw [div_eq_mul_inv, ← zpow_natCast, ← zpow_neg, Int.toNat_of_nonneg (by omega), neg_neg]

theorem take_digits {digits tail : List Char} (digit : ∀ c ∈ digits, c.isDigit = true)
    (ends : ∀ c ∈ tail.head?, c.isDigit = false) :
    (digits ++ tail).takeWhile Char.isDigit = digits ∧
      (digits ++ tail).dropWhile Char.isDigit = tail := by
  have stops : tail.takeWhile Char.isDigit = [] ∧ tail.dropWhile Char.isDigit = tail := by
    cases tail with
    | nil => exact ⟨rfl, rfl⟩
    | cons c rest =>
      have other := ends c rfl
      simp [other]
  rw [List.takeWhile_append_of_pos digit, List.dropWhile_append_of_pos digit, stops.1, stops.2,
    List.append_nil]
  exact ⟨rfl, rfl⟩

theorem exponent_text_read (e : ℤ) : exponentValue (exponentText e) = e := by
  have padding : ∀ c ∈ padded 2 e.natAbs, c.isDigit = true := fun c => padded_digit
  have digits := (take_digits padding (show ∀ c ∈ ([] : List Char).head?, c.isDigit = false by simp)).1
  rw [List.append_nil] at digits
  by_cases negative : e < 0
  · have text : exponentText e = 'e' :: '-' :: padded 2 e.natAbs := by
      rw [exponentText, if_pos negative]
    have read : exponentValue ('e' :: '-' :: padded 2 e.natAbs) =
        -(digitsValue ((padded 2 e.natAbs).takeWhile Char.isDigit) : ℤ) := rfl
    rw [text, read, digits, digits_value_eq, padded_value]
    omega
  · have text : exponentText e = 'e' :: '+' :: padded 2 e.natAbs := by
      rw [exponentText, if_neg negative]
    have read : exponentValue ('e' :: '+' :: padded 2 e.natAbs) =
        (digitsValue ((padded 2 e.natAbs).takeWhile Char.isDigit) : ℤ) := rfl
    rw [text, read, digits, digits_value_eq, padded_value]
    omega

def pointText : Option (List Char) → List Char
  | none => []
  | some digits => '.' :: digits

def powerText : Option ℤ → List Char
  | none => []
  | some e => exponentText e

theorem power_read (e : Option ℤ) : exponentValue (powerText e) = e.getD 0 := by
  cases e with
  | none => rfl
  | some e => exact exponent_text_read e

theorem power_ends (e : Option ℤ) : ∀ c ∈ (powerText e).head?, c.isDigit = false := by
  intro c first
  cases e with
  | none => cases first
  | some e =>
    cases first
    rfl

theorem render_eq (n : Numeral) :
    n.render = (if n.minus then ['-'] else []) ++ (n.whole ++ (pointText n.fraction ++ powerText n.exponent)) := by
  have parts : n.render =
      (if n.minus then ['-'] else []) ++ n.whole ++ pointText n.fraction ++ powerText n.exponent := by
    obtain ⟨minus, whole, fraction, exponent⟩ := n
    cases fraction <;> cases exponent <;> rfl
  rw [parts, List.append_assoc, List.append_assoc]

theorem digit_range {c : Char} (digit : c.isDigit = true) : 48 ≤ c.toNat ∧ c.toNat ≤ 57 := by
  simp only [Char.isDigit, ge_iff_le, Bool.and_eq_true, decide_eq_true_eq, UInt32.le_iff_toNat_le] at digit
  exact digit

/-- The sign is taken off a text that goes on with a digit. -/
theorem sign_read (minus : Bool) {c : Char} (digit : c.isDigit = true) (rest : List Char) :
    takeSign (((if minus then ['-'] else []) ++ c :: rest).dropWhile isSpace) = (minus, c :: rest) := by
  have range := digit_range digit
  have space : isSpace c = false := by
    have blank : c ≠ ' ' := by
      rintro rfl
      cases digit
    simp only [isSpace, beq_eq_false_iff_ne.mpr blank, Bool.false_or, Bool.and_eq_false_imp,
      decide_eq_true_eq, decide_eq_false_iff_not]
    omega
  cases minus with
  | true => rfl
  | false =>
    have plain : ((if false = true then ['-'] else []) ++ c :: rest).dropWhile isSpace = c :: rest := by
      simp [space]
    rw [plain]
    unfold takeSign
    split
    · rename_i same
      cases same
      cases digit
    · rename_i same
      cases same
      cases digit
    · rfl

/-- What `std::stod` makes of the digits before and after the point and the exponent. -/
def stodParts (minus : Bool) (whole fraction : List Char) (exponent : ℤ) : Option ℚ :=
  let value := scale (negateIf minus (digitsValue (whole ++ fraction))) (exponent - fraction.length)
  if whole ++ fraction = [] then none
  else if -doubleLimit < value ∧ value < doubleLimit then some value
  else none

theorem stod_of_sign {text : String} {minus : Bool} {whole : List Char} {fraction : Option (List Char)}
    {exponent : Option ℤ} (digit : ∀ c ∈ whole ++ fraction.getD [], c.isDigit = true)
    (signed : takeSign (text.toList.dropWhile isSpace) =
      (minus, whole ++ (pointText fraction ++ powerText exponent))) :
    stod text = stodParts minus whole (fraction.getD []) (exponent.getD 0) := by
  have inWhole : ∀ c ∈ whole, c.isDigit = true := fun c member => digit c (List.mem_append_left _ member)
  rw [← power_read exponent]
  unfold stod
  rw [signed]
  cases fraction with
  | none =>
    obtain ⟨taken, dropped⟩ := take_digits inWhole (power_ends exponent)
    simp only [pointText, List.nil_append, taken, dropped]
    cases exponent <;> rfl
  | some digits =>
    have point : ∀ c ∈ ('.' :: (digits ++ powerText exponent)).head?, c.isDigit = false := by
      rintro c ⟨⟩
      rfl
    obtain ⟨taken, dropped⟩ := take_digits inWhole point
    obtain ⟨inside, after⟩ := take_digits (fun c member => digit c (List.mem_append_right _ member))
      (power_ends exponent)
    simp only [pointText, List.cons_append, taken, dropped, Option.getD_some] at inside after ⊢
    simp only [inside, after]
    rfl

/-- `std::stod` reads the text of a numeral as the number it stands for. -/
theorem stod_render {n : Numeral} (wellFormed : n.WellFormed) (bounded : |n.value| < doubleLimit) :
    stod (String.ofList n.render) = some n.value := by
  obtain ⟨nonempty, digit⟩ := wellFormed
  have whole : ∀ c ∈ n.whole, c.isDigit = true := fun c member => digit c (List.mem_append_left _ member)
  obtain ⟨first, rest, starts⟩ := List.exists_cons_of_ne_nil nonempty
  have signed : takeSign (n.render.dropWhile isSpace) =
      (n.minus, n.whole ++ (pointText n.fraction ++ powerText n.exponent)) := by
    rw [render_eq, starts, List.cons_append]
    exact sign_read n.minus (whole first (starts ▸ List.mem_cons_self)) _
  have value : scale (negateIf n.minus (digitsValue n.digits)) n.scaleOf = n.value := by
    rw [scale_eq_zpow, Numeral.value, digits_value_eq]
    cases n.minus <;> simp [negateIf]
  have bounds := abs_lt.mp bounded
  have some_ : n.digits ≠ [] := List.append_ne_nil_of_left_ne_nil nonempty _
  rw [stod_of_sign digit (by rw [String.toList_ofList]; exact signed)]
  have same : n.whole ++ n.fraction.getD [] = n.digits := rfl
  have shift : n.exponent.getD 0 - ((n.fraction.getD []).length : ℤ) = n.scaleOf := rfl
  simp only [stodParts, same, shift, value, if_neg some_, bounds, and_self, if_true]

/-- `std::stol` stops at the first character that is no digit. -/
theorem stol_digits {n : ℕ} (fits : n < 2 ^ 63) {tail : List Char}
    (ends : ∀ c ∈ tail.head?, c.isDigit = false) :
    stol (String.ofList (Nat.toDigits 10 n ++ tail)) = some (n : ℤ) := by
  obtain ⟨first, rest, starts⟩ := List.exists_cons_of_ne_nil (Nat.toDigits_ne_nil (b := 10) (n := n))
  have signed : takeSign ((Nat.toDigits 10 n ++ tail).dropWhile isSpace) =
      (false, Nat.toDigits 10 n ++ tail) := by
    rw [starts, List.cons_append]
    exact sign_read false (to_digits_digit (n := n) (starts ▸ List.mem_cons_self)) _
  have taken := (take_digits (fun c => to_digits_digit (n := n)) ends).1
  unfold stol
  rw [String.toList_ofList, signed]
  simp only [taken, Nat.toDigits_ne_nil, if_false, digits_value_eq, digits_to_digits, negateIf]
  rw [if_pos ⟨by omega, by simpa using (by exact_mod_cast fits : (n : ℤ) < 2 ^ 63)⟩]
  rfl

theorem stol_to_string {n : ℕ} (fits : n < 2 ^ 63) : stol (toString (n : ℤ)) = some (n : ℤ) := by
  have text : toString (n : ℤ) = String.ofList (Nat.toDigits 10 n ++ []) := by
    rw [List.append_nil, ← nat_text, String.ofList_toList]
  rw [text]
  exact stol_digits fits (by simp)

theorem double_limit_large : (10 : ℚ) ^ 15 * 10 ^ 285 < doubleLimit := by decide +kernel

theorem decimal_bounded {m j : ℤ} (short : m.natAbs < 10 ^ 15) (high : j ≤ 285) :
    |(m : ℚ) * 10 ^ j| < doubleLimit := by
  have scale : (0 : ℚ) < 10 ^ j := zpow_pos (by norm_num) _
  have small : (10 : ℚ) ^ j ≤ 10 ^ 285 := by
    rw [← zpow_natCast]
    exact zpow_le_zpow_right₀ (by norm_num) high
  have size : |(m : ℚ)| < 10 ^ 15 := by
    rw [← Int.cast_abs, Int.abs_eq_natAbs]
    exact_mod_cast short
  rw [abs_mul, abs_of_pos scale]
  calc |(m : ℚ)| * 10 ^ j ≤ 10 ^ 15 * 10 ^ 285 :=
        mul_le_mul size.le small scale.le (pow_nonneg (by norm_num) _)
    _ < doubleLimit := double_limit_large

/-- A number of at most ten significant digits survives the wire. -/
theorem decimal_read_back {m j : ℤ} (short : m.natAbs < 10 ^ 10) (high : j ≤ 285) :
    stod (setDecimal (m * 10 ^ j)) = some ((m : ℚ) * 10 ^ j) := by
  have value := general_exact (show 0 < 10 by decide) short j
  rw [setDecimal, stod_render (general_well_formed (by decide) _), value]
  rw [value]
  exact decimal_bounded (by omega) high

theorem integer_read_back {n : ℤ} (short : n.natAbs < 10 ^ 10) : stod (setDecimal n) = some (n : ℚ) := by
  have read := decimal_read_back (j := 0) short (by decide)
  rwa [zpow_zero, mul_one] at read

end Reading

section Orders

/-- The message of `PlaceOrder` as it is sent. -/
structure WireOrder where
  accountId : String
  symbol : String
  quantity : String
  side : ProtoSide
  clientOrderId : String
  type : ProtoOrderType
  timeInForce : TimeInForce
  limitPrice : Option String
  deriving DecidableEq, Repr

def wireOrder (o : PlaceOrder) : WireOrder :=
  { accountId := o.accountId
    symbol := o.symbol
    quantity := setDecimal o.quantity
    side := o.side
    clientOrderId := o.clientOrderId
    type := o.type
    timeInForce := o.timeInForce
    limitPrice := o.limitPrice.map setDecimal }

/-- A report of the order by a broker that repeats the fields it was sent. -/
def echo (w : WireOrder) (orderId : String) (status : ProtoOrderStatus) (executed : ℤ) : OrderReport :=
  { orderId := orderId
    clientOrderId := w.clientOrderId
    side := w.side
    type := w.type
    status := status
    initialQuantity := w.quantity
    executedQuantity := setDecimal executed }

/-- The texts of an order stand for the request it was made of, and what the stream thread
    makes of a report that repeats them is the state `submit` has stored, with the quantity
    executed. -/
structure ReadsBack (localId : ℤ) (req : OrderRequest) (w : WireOrder) : Prop where
  symbol : w.symbol = req.symbol.toString
  quantity : stod w.quantity = some (req.quantity : ℚ)
  market : req.type = .market → w.limitPrice = none ∧ w.timeInForce = .ioc
  limit : req.type = .limit → w.timeInForce = .day ∧ ∀ m j : ℤ, m.natAbs < 10 ^ 10 → j ≤ 285 →
    req.price = m * 10 ^ j → ∃ text, w.limitPrice = some text ∧ stod text = some req.price
  report : ∀ (c : OrderClient) (reply : PlaceReply) (executed now : ℤ), executed.natAbs < 10 ^ 10 →
    c.symbolOf localId = req.symbol →
    c.reportState (echo w reply.orderId reply.status executed) now =
      { submitState localId req reply now with price := 0, qtyFilled := executed }

theorem quantity_of_decimal {n : ℤ} (short : n.natAbs < 10 ^ 10) : quantityOf (setDecimal n) = n := by
  rw [quantityOf, integer_read_back short]
  simp [truncate]

theorem order_reads_back (c : OrderClient) {localId : ℕ} (id : localId < 2 ^ 63) {req : OrderRequest}
    (short : req.quantity.natAbs < 10 ^ 10) :
    ReadsBack localId req (wireOrder (c.placeOrder localId req)) := by
  refine ⟨rfl, integer_read_back short, ?_, ?_, ?_⟩
  · intro market
    simp [wireOrder, OrderClient.placeOrder, market]
  · intro limit
    refine ⟨by simp [wireOrder, OrderClient.placeOrder, limit], ?_⟩
    intro m j digits high price
    refine ⟨setDecimal req.price, by simp [wireOrder, OrderClient.placeOrder, limit], ?_⟩
    rw [price]
    exact decimal_read_back digits high
  · intro d reply executed now fits symbol
    have number : OrderReport.localId (echo (wireOrder (c.placeOrder localId req)) reply.orderId
        reply.status executed) = localId := by
      change (stol (toString (localId : ℤ))).getD 0 = _
      rw [stol_to_string id]
      rfl
    have side : OrderReport.orderSide (echo (wireOrder (c.placeOrder localId req)) reply.orderId
        reply.status executed) = req.side := by
      change (if (if req.side = .buy then ProtoSide.buy else .sell) = .buy then OrderSide.buy else .sell) = _
      cases req.side <;> rfl
    have type : (if (echo (wireOrder (c.placeOrder localId req)) reply.orderId reply.status executed).type =
        .market then FinamInterfaces.OrderType.market else .limit) = req.type := by
      change (if (if req.type = .market then ProtoOrderType.market else .limit) = .market then _ else _) = _
      cases req.type <;> rfl
    unfold OrderClient.reportState
    rw [number, side, type, symbol]
    simp only [OrderReport.executed, echo, wireOrder, OrderClient.placeOrder,
      quantity_of_decimal short, quantity_of_decimal fits, submitState]

end Orders

section Run
variable {f : OrderFlow}

/-- The orders placed are those of accepted requests, numbered from 1 in the order they were
    placed in. -/
structure PlacedFrom (acts : List Action) (f : OrderFlow) : Prop where
  counter : f.client.idCounter = f.placed.length + 1
  bounded : f.placed.length ≤ acts.length
  placed : ∀ (k : ℕ) o, f.placed[k]? = some o → ∃ req, .submit req ∈ acts ∧ validate req = none ∧
    ∃ c : OrderClient, o = c.placeOrder (k + 1 : ℕ) req

theorem advance_placed (pc : UpsertPc) : (f.advance pc).1.placed = f.placed := by
  cases pc <;> rfl

theorem step_placed {a : Action} (other : ∀ req, a ≠ .submit req) :
    (f.step a).placed = f.placed ∧ (f.step a).client.idCounter = f.client.idCounter := by
  cases a with
  | submit req => exact absurd rfl (other req)
  | reply localId result now =>
    simp only [OrderFlow.step, OrderFlow.reply]
    split <;> exact ⟨rfl, rfl⟩
  | submitStep localId =>
    simp only [OrderFlow.step, OrderFlow.submitStep]
    split
    · exact ⟨advance_placed _, advance_counter _⟩
    · exact ⟨rfl, rfl⟩
  | report o now =>
    simp only [OrderFlow.step, OrderFlow.report]
    split <;> exact ⟨rfl, rfl⟩
  | streamStep =>
    simp only [OrderFlow.step, OrderFlow.streamStep]
    split
    · exact ⟨advance_placed _, advance_counter _⟩
    · exact ⟨rfl, rfl⟩

theorem placed_from_unchanged {acts : List Action} {next : OrderFlow} (a : Action)
    (inv : PlacedFrom acts f) (placed : next.placed = f.placed)
    (counter : next.client.idCounter = f.client.idCounter) : PlacedFrom (acts ++ [a]) next := by
  refine ⟨?_, ?_, ?_⟩
  · rw [placed, counter]
    exact inv.counter
  · rw [placed, List.length_append]
    exact inv.bounded.trans (Nat.le_add_right _ _)
  · intro k o here
    obtain ⟨req, member, rest⟩ := inv.placed k o (placed ▸ here)
    exact ⟨req, List.mem_append_left _ member, rest⟩

theorem submit_refused {req : OrderRequest} {e : Error} (refused : validate req = some e) :
    f.submit req = f := by
  simp [OrderFlow.submit, refused]

theorem submit_accepted {req : OrderRequest} (valid : validate req = none) :
    (f.submit req).placed = f.placed ++ [f.client.placeOrder f.client.idCounter req] ∧
      (f.submit req).client.idCounter = f.client.idCounter + 1 := by
  simp [OrderFlow.submit, valid]

theorem placed_from_submit {acts : List Action} {req : OrderRequest} (inv : PlacedFrom acts f) :
    PlacedFrom (acts ++ [.submit req]) (f.submit req) := by
  cases valid : validate req with
  | some e =>
    rw [submit_refused valid]
    exact placed_from_unchanged _ inv rfl rfl
  | none =>
    obtain ⟨placed, counter⟩ := submit_accepted (f := f) valid
    refine ⟨?_, ?_, ?_⟩
    · rw [placed, counter, inv.counter, List.length_append]
      rfl
    · rw [placed, List.length_append, List.length_append]
      exact Nat.add_le_add_right inv.bounded 1
    · intro k o here
      rw [placed] at here
      rcases lt_or_ge k f.placed.length with old | new
      · rw [List.getElem?_append_left old] at here
        obtain ⟨req', member, rest⟩ := inv.placed k o here
        exact ⟨req', List.mem_append_left _ member, rest⟩
      · rw [List.getElem?_append_right new] at here
        have last : k - f.placed.length < 1 := (List.getElem?_eq_some_iff.mp here).1
        have only : k - f.placed.length = 0 := by omega
        rw [only] at here
        cases here
        have id : f.client.idCounter = (k + 1 : ℕ) := by
          rw [inv.counter]
          push_cast
          omega
        exact ⟨req, List.mem_append_right _ (List.mem_singleton_self _), valid, f.client, by rw [id]⟩

theorem placed_from_step {acts : List Action} (a : Action) (inv : PlacedFrom acts f) :
    PlacedFrom (acts ++ [a]) (f.step a) := by
  by_cases submits : ∃ req, a = .submit req
  · obtain ⟨req, rfl⟩ := submits
    exact placed_from_submit inv
  · obtain ⟨placed, counter⟩ := step_placed (f := f) fun req same => submits ⟨req, same⟩
    exact placed_from_unchanged a inv placed counter

theorem placed_from_run (accountId : String) (acts : List Action) :
    PlacedFrom acts (run OrderFlow.step (.init accountId) acts) := by
  induction acts using List.reverseRecOn with
  | nil => exact ⟨rfl, le_rfl, fun k o none => by cases none⟩
  | append_singleton rest a ih =>
    rw [run_append]
    exact placed_from_step a ih

def limitRequest : OrderRequest := ⟨"account", ⟨"SiM6", "FORTS"⟩, .buy, .limit, 206251 / 2, 2⟩

def limitOrder : PlaceOrder := OrderClient.placeOrder { accountId := "account" } 1 limitRequest

end Run

end FinamWireOrders
