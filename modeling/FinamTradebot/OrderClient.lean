import FinamTradebot.Interfaces
import Mathlib.Logic.Function.Basic

/-!
order/order_client.cpp without its threads: the decoding of a stream report, the
record map and `upsert`. Messages keep the texts the code parses; a number text is
read by the decimal grammar of `strtol` and `strtod` (the hexadecimal, infinite and
not-a-number spellings are no values of a `google.type.Decimal`). The map is a
function that is `none` where there is no record.
-/
namespace FinamOrderClient
open FinamInterfaces

inductive ProtoOrderStatus where
  | new | pendingNew | pendingCancel | suspended | watching | wait | linkWait | forwarding
  | slForwarding | tpForwarding | slGuardTime | tpGuardTime | tpCorrection | tpCorrGuardTime
  | partiallyFilled
  | filled | executed | slExecuted | tpExecuted
  | canceled | replaced | doneForDay | expired | disabled
  | rejected | rejectedByExchange | deniedByBroker | failed
  | other (code : ℤ)
  deriving DecidableEq, Repr

inductive ProtoSide where
  | buy | sell | other (code : ℤ)
  deriving DecidableEq, Repr

inductive ProtoOrderType where
  | market | limit | other (code : ℤ)
  deriving DecidableEq, Repr

inductive TimeInForce where
  | day | ioc
  deriving DecidableEq, Repr

def mapStatus : ProtoOrderStatus → OrderStatus
  | .new | .pendingNew | .pendingCancel | .suspended | .watching | .wait | .linkWait
  | .forwarding | .slForwarding | .tpForwarding | .slGuardTime | .tpGuardTime | .tpCorrection
  | .tpCorrGuardTime => .pending
  | .partiallyFilled => .partialFill
  | .filled | .executed | .slExecuted | .tpExecuted => .filled
  | .canceled | .replaced | .doneForDay | .expired | .disabled => .cancelled
  | .rejected | .rejectedByExchange | .deniedByBroker | .failed => .rejected
  | .other _ => .pending

def validate (req : OrderRequest) : Option Error :=
  if req.clientId = "" then some ⟨.invalidArgument, "client_id is empty"⟩
  else if req.quantity ≤ 0 then
    some ⟨.invalidQuantity, "quantity must be > 0, got " ++ toString req.quantity⟩
  else if req.type = .limit ∧ req.price ≤ 0 then
    some ⟨.invalidPrice, "limit order requires price > 0"⟩
  else none

section Numbers

def isSpace (c : Char) : Bool := c == ' ' || (decide (9 ≤ c.toNat) && decide (c.toNat ≤ 13))

def takeSign : List Char → Bool × List Char
  | '-' :: rest => (true, rest)
  | '+' :: rest => (false, rest)
  | rest => (false, rest)

def negateIf (minus : Bool) (n : ℤ) : ℤ := if minus then -n else n

def digitsValue (digits : List Char) : ℕ :=
  digits.foldl (fun value c => 10 * value + (c.toNat - '0'.toNat)) 0

/-- `std::stol`: `none` where it throws. Text after the number is ignored. -/
def stol (text : String) : Option ℤ :=
  let (minus, rest) := takeSign (text.toList.dropWhile isSpace)
  let digits := rest.takeWhile Char.isDigit
  let value := negateIf minus (digitsValue digits)
  if digits = [] then none
  else if -2 ^ 63 ≤ value ∧ value < 2 ^ 63 then some value
  else none

def exponentValue : List Char → ℤ
  | c :: rest =>
    if c == 'e' || c == 'E' then
      let (minus, rest) := takeSign rest
      negateIf minus (digitsValue (rest.takeWhile Char.isDigit))
    else 0
  | [] => 0

def scale (mantissa : ℚ) (exponent : ℤ) : ℚ :=
  if 0 ≤ exponent then mantissa * 10 ^ exponent.toNat else mantissa / 10 ^ (-exponent).toNat

/-- From here on the nearest `double` would be infinite. -/
def doubleLimit : ℚ := 2 ^ 1024 - 2 ^ 970

/-- `std::stod`: `none` where it throws for a text without digits or for overflow. It
    also throws for underflow, where the callers' default is the truncated value. -/
def stod (text : String) : Option ℚ :=
  let (minus, rest) := takeSign (text.toList.dropWhile isSpace)
  let whole := rest.takeWhile Char.isDigit
  let rest := rest.dropWhile Char.isDigit
  let (fraction, rest) := match rest with
    | '.' :: tail => (tail.takeWhile Char.isDigit, tail.dropWhile Char.isDigit)
    | rest => ([], rest)
  let mantissa := negateIf minus (digitsValue (whole ++ fraction))
  let value := scale mantissa (exponentValue rest - fraction.length)
  if whole ++ fraction = [] then none
  else if -doubleLimit < value ∧ value < doubleLimit then some value
  else none

def quantityOf (text : String) : ℤ :=
  match stod text with
  | none => 0
  | some value => truncate value

end Numbers

structure OrderReport where
  orderId : String
  clientOrderId : String
  side : ProtoSide
  type : ProtoOrderType
  status : ProtoOrderStatus
  initialQuantity : String
  executedQuantity : String
  deriving DecidableEq, Repr

def OrderReport.localId (o : OrderReport) : ℤ := (stol o.clientOrderId).getD 0

def OrderReport.executed (o : OrderReport) : ℤ := quantityOf o.executedQuantity

def OrderReport.orderSide (o : OrderReport) : OrderSide :=
  if o.side = .buy then .buy else .sell

structure OrderState where
  orderId : String
  localId : ℤ
  symbol : Symbol
  side : OrderSide
  status : OrderStatus
  type : FinamInterfaces.OrderType
  price : ℚ
  qtyTotal : ℤ
  qtyFilled : ℤ := 0
  rejectReason : String := ""
  ts : ℤ
  deriving DecidableEq, Repr

structure OrderClient where
  accountId : String
  idCounter : ℤ := 1
  orders : ℤ → Option OrderState := fun _ => none

structure PlaceOrder where
  accountId : String
  symbol : String
  quantity : ℚ
  side : ProtoSide
  clientOrderId : String
  type : ProtoOrderType
  timeInForce : TimeInForce
  limitPrice : Option ℚ
  deriving DecidableEq, Repr

structure PlaceReply where
  orderId : String
  status : ProtoOrderStatus
  deriving DecidableEq, Repr

def OrderClient.placeOrder (c : OrderClient) (localId : ℤ) (req : OrderRequest) : PlaceOrder :=
  { accountId := c.accountId
    symbol := req.symbol.toString
    quantity := req.quantity
    side := if req.side = .buy then .buy else .sell
    clientOrderId := toString localId
    type := if req.type = .market then .market else .limit
    timeInForce := if req.type = .market then .ioc else .day
    limitPrice := if req.type = .market then none else some req.price }

def submitState (localId : ℤ) (req : OrderRequest) (reply : PlaceReply) (now : ℤ) : OrderState :=
  { orderId := reply.orderId
    localId := localId
    symbol := req.symbol
    side := req.side
    status := mapStatus reply.status
    type := req.type
    price := req.price
    qtyTotal := req.quantity
    ts := now }

/-- The symbol of the order's record; an unknown order has the empty symbol. -/
def OrderClient.symbolOf (c : OrderClient) (localId : ℤ) : Symbol :=
  match c.orders localId with
  | none => ⟨"", ""⟩
  | some st => st.symbol

def OrderClient.reportState (c : OrderClient) (o : OrderReport) (now : ℤ) : OrderState :=
  { orderId := o.orderId
    localId := o.localId
    symbol := c.symbolOf o.localId
    side := o.orderSide
    status := mapStatus o.status
    type := if o.type = .market then .market else .limit
    price := 0
    qtyTotal := quantityOf o.initialQuantity
    qtyFilled := o.executed
    ts := now }

def OrderClient.prevFilled (c : OrderClient) (localId : ℤ) : ℤ :=
  match c.orders localId with
  | none => 0
  | some st => st.qtyFilled

def OrderClient.orderUpdate (c : OrderClient) (st : OrderState) (prevFilled : ℤ) : OrderUpdate :=
  { orderNo := 0
    transactionId := toInt32 st.localId
    symbol := st.symbol
    clientId := c.accountId
    side := st.side
    status := st.status
    type := st.type
    price := st.price
    qtyTotal := st.qtyTotal
    qtyFilled := st.qtyFilled - prevFilled
    message := st.rejectReason
    ts := st.ts }

def OrderClient.store (c : OrderClient) (st : OrderState) : OrderClient :=
  { c with orders := Function.update c.orders st.localId (some st) }

/-- `upsert` when nothing runs between its read and its write: the client after it and
    the update it delivers. -/
def OrderClient.upsert (c : OrderClient) (st : OrderState) : OrderClient × OrderUpdate :=
  (c.store st, c.orderUpdate st (c.prevFilled st.localId))

def OrderClient.onReport (c : OrderClient) (o : OrderReport) (now : ℤ) :
    OrderClient × OrderUpdate :=
  c.upsert (c.reportState o now)

section Store
variable (c : OrderClient) (st : OrderState) (localId : ℤ)

theorem store_orders : (c.store st).orders localId =
    if localId = st.localId then some st else c.orders localId := by
  simp [OrderClient.store, Function.update_apply]

theorem store_prev_filled : (c.store st).prevFilled localId =
    if localId = st.localId then st.qtyFilled else c.prevFilled localId := by
  unfold OrderClient.prevFilled
  by_cases own : localId = st.localId
  · simp [store_orders, own]
  · simp [store_orders, own]

end Store

end FinamOrderClient
